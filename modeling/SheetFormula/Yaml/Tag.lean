import SheetFormula.Decimal
import SheetFormula.Yaml.Timestamp

/-!
# Tags of scalars

A scalar without quotes and without a tag is what its text looks like: null, a truth value, a
number, a timestamp, or else a string.
-/

namespace SheetFormula.Yaml

/-- A floating-point number as it is spelled. -/
inductive FloatSpelling where
  | nan
  | infinite (negative : Bool)
  | finite (negative : Bool) (d : Decimal)
deriving DecidableEq, Repr

/-- What the text of a scalar stands for. -/
inductive Resolved where
  | null
  | bool (b : Bool)
  | int (n : Int)
  | float (f : FloatSpelling)
  | timestamp
  | string
deriving DecidableEq, Repr

def Resolved.tag : Resolved → Text
  | .null => "!!null"
  | .bool _ => "!!bool"
  | .int _ => "!!int"
  | .float _ => "!!float"
  | .timestamp => "!!timestamp"
  | .string => "!!str"

/-- The words that stand for something other than themselves. -/
def words : List (Text × Resolved) :=
  [("true", .bool true), ("True", .bool true), ("TRUE", .bool true),
   ("false", .bool false), ("False", .bool false), ("FALSE", .bool false),
   ("", .null), ("~", .null), ("null", .null), ("Null", .null), ("NULL", .null),
   (".nan", .float .nan), (".NaN", .float .nan), (".NAN", .float .nan),
   (".inf", .float (.infinite false)), (".Inf", .float (.infinite false)),
   (".INF", .float (.infinite false)), ("+.inf", .float (.infinite false)),
   ("+.Inf", .float (.infinite false)), ("+.INF", .float (.infinite false)),
   ("-.inf", .float (.infinite true)), ("-.Inf", .float (.infinite true)),
   ("-.INF", .float (.infinite true))]

/-- The value of a digit in bases up to 16. -/
def digit? (base : Nat) (b : UInt8) : Option Nat :=
  (Text.hexValue? b).bind fun n => if n < base then some n else none

def digits? (base : Nat) (t : Text) : Option Nat :=
  t.foldlM (fun n b => (digit? base b).map (n * base + ·)) 0

/-- The natural number of a spelling whose base is shown by how it starts. -/
def natural? (t : Text) : Option Nat :=
  match t with
  | [] => none
  | a :: rest =>
    if a ≠ '0' then digits? 10 t
    else
      match rest with
      | b :: c :: more =>
        if b = 'b' || b = 'B' then digits? 2 (c :: more)
        else if b = 'o' || b = 'O' then digits? 8 (c :: more)
        else if b = 'x' || b = 'X' then digits? 16 (c :: more)
        else digits? 8 rest
      | _ => digits? 8 rest

/-- An integer of 64 bits with a sign. -/
def signed? (magnitude? : Text → Option Nat) (t : Text) : Option Int :=
  match t with
  | [] => none
  | a :: rest =>
    if a = '-' then
      (magnitude? rest).bind fun n => if n ≤ Nat.pow 2 63 then some (-(n : Int)) else none
    else
      (magnitude? (if a = '+' then rest else t)).bind fun n =>
        if n < Nat.pow 2 63 then some (n : Int) else none

/-- An integer of 64 bits, with a sign or without. -/
def integer? (magnitude? : Text → Option Nat) (t : Text) : Option Int :=
  signed? magnitude? t <|>
    (magnitude? t).bind fun n => if n < Nat.pow 2 64 then some (n : Int) else none

/-- The value of at least one digit in a base. -/
def someDigits? (base : Nat) (t : Text) : Option Nat := if t.isEmpty then none else digits? base t

/-- An integer after a mark that gives its base; the sign may stand on either side of the mark. -/
def marked? (base : Nat) (mark t : Text) : Option Int :=
  match Text.dropStart? mark t with
  | some rest => integer? (someDigits? base) rest
  | none =>
    (Text.dropStart? ("-" ++ mark) t).bind fun rest => signed? (someDigits? base) ("-" ++ rest)

def isNegative (t : Text) : Bool := t.head? == some '-'

/-- A finite number in double precision. -/
def finite? (t : Text) : Option FloatSpelling :=
  (Decimal.parse? t).bind fun d =>
    if d.below Decimal.doubleBound then some (.finite (isNegative t) d) else none

/-- What a text that starts with a digit or a sign stands for. -/
def numeric (timestamps : Bool) (t : Text) : Resolved :=
  if timestamps && Timestamp.recognises t then .timestamp
  else
    let plain := t.filter fun b : UInt8 => b != '_'
    match integer? natural? plain with
    | some n => .int n
    | none =>
      match finite? plain with
      | some f => .float f
      | none =>
        match marked? 2 "0b" plain <|> marked? 8 "0o" plain with
        | some n => .int n
        | none => .string

/-- What the text of a scalar stands for; timestamps count only where nothing else is asked for. -/
def resolve (timestamps : Bool) (t : Text) : Resolved :=
  match t with
  | [] => .null
  | a :: _ =>
    if !List.elem a (Text.ofString "+-0123456789yYnNtTfFoO~.") then .string
    else
      match words.lookup t with
      | some r => r
      | none =>
        if a = '.' then ((finite? t).map .float).getD .string
        else if Text.isDigit a || a = '+' || a = '-' then numeric timestamps t
        else .string

/-- The tag of a scalar without quotes. -/
def implicitTag (t : Text) : Text := (resolve true t).tag

end SheetFormula.Yaml
