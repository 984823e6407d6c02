import SheetFormula.Text

/-!
# JSON values

A value as it was written: numbers keep their spelling, members their order and repetitions. Names
remember how they were spelled, because some objects are read more strictly than others.
-/

namespace SheetFormula.Json

/-- The name of a member: a quoted text, a quoted text with a raw control character in it, or the
bare word `null`, which stands for the empty name. -/
inductive Name where
  | text (t : Text)
  | raw (t : Text)
  | null
deriving DecidableEq, Repr

def Name.toText : Name → Text
  | .text t | .raw t => t
  | .null => []

inductive Value where
  | null
  | bool (b : Bool)
  | number (spelling : Text)
  | string (t : Text)
  | array (items : List Value)
  | object (members : List (Name × Value))
deriving Repr

namespace Value

mutual

/-- How deep arrays and objects are nested, empty ones included. -/
def depth : Value → Nat
  | null | bool _ | number _ | string _ => 0
  | array items => depthAll items + 1
  | object members => depthMembers members + 1

def depthAll : List Value → Nat
  | [] => 0
  | v :: rest => max v.depth (depthAll rest)

def depthMembers : List (Name × Value) → Nat
  | [] => 0
  | (_, v) :: rest => max v.depth (depthMembers rest)

end

mutual

/-- Whether no name anywhere in a value holds a raw control character. -/
def clean : Value → Bool
  | null | bool _ | number _ | string _ => true
  | array items => cleanAll items
  | object members => cleanMembers members

def cleanAll : List Value → Bool
  | [] => true
  | v :: rest => v.clean && cleanAll rest

def cleanMembers : List (Name × Value) → Bool
  | [] => true
  | (.raw _, _) :: _ => false
  | (_, v) :: rest => v.clean && cleanMembers rest

end

end Value

end SheetFormula.Json
