import SheetFormula.Text

/-!
# Message templates

A template is fixed text with named slots. Filling it prints the value of every slot; without
values at all a template stands for its own source.
-/

namespace SheetFormula

/-- A value that a message can mention. -/
inductive Datum where
  | text (t : Text)
  | int (n : Int)
  | bool (b : Bool)
  | null
deriving DecidableEq, Repr

abbrev Data := List (Text × Datum)

namespace Data

/-- The value of a name, null when there is none. -/
def get (data : Data) (name : Text) : Datum := (data.lookup name).getD .null

/-- The value of a name, when it is a text. -/
def text? (data : Data) (name : Text) : Option Text :=
  match data.get name with
  | .text t => some t
  | _ => none

end Data

/-- What a slot prints when it has no value. -/
def noValue : Text := "<no value>"

def Datum.show : Datum → Text
  | .text t => t
  | .int n => Text.ofInt n
  | .bool true => "true"
  | .bool false => "false"
  | .null => noValue

namespace Template

/-- A stretch of fixed text, or a named slot. -/
inductive Piece where
  | text (t : Text)
  | slot (name : Text)
deriving DecidableEq, Repr

/-- How a piece is written in the source of a template. -/
def Piece.source : Piece → Text
  | .text t => t
  | .slot name => "\x7b\x7b." ++ name ++ "\x7d\x7d"

def Piece.fill (data : Data) : Piece → Text
  | .text t => t
  | .slot name => (data.get name).show

end Template

/-- A message with slots. -/
abbrev Template := List Template.Piece

namespace Template

def source (t : Template) : Text := t.flatMap Piece.source

/-- The message for the given values, or the source of the template without any. -/
def render (t : Template) : Option Data → Text
  | none => t.source
  | some data => t.flatMap (Piece.fill data)

def slots (t : Template) : List Text :=
  t.filterMap fun
    | .text _ => none
    | .slot name => some name

end Template

end SheetFormula
