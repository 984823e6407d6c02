import SheetFormula.Diagnostic.Catalog

/-!
# Diagnostics

A diagnostic is one failure of a unit: its code and class, the rendered message with its hints, and
where it is, as far as that is known.
-/

namespace SheetFormula

/-- A failure of reading or compiling a unit. Line 0 stands for an unknown place and an empty file
for an unknown unit. -/
structure Diagnostic where
  cls : Diagnostic.Class
  code : Text
  message : Text
  hints : List Text := []
  /-- The offending kind of node, if any. -/
  kind : Text := []
  line : Int64 := 0
  column : Int64 := 0
  file : Text := []
  data : Data := []
deriving DecidableEq, Repr

namespace Diagnostic

/-- A hint is given unless nothing was there to fill it with. -/
def usableHint (hint : Text) : Bool := !hint.isEmpty && hint != noValue

/-- The diagnostic of a code. A code outside the catalog is its own message, unless the values
give one. -/
def ofCode (code : Text) (data : Option Data) : Diagnostic :=
  match definition? code with
  | some d =>
    { cls := d.cls, code := code, message := d.message.render data
      hints := (d.hints.map (·.render data)).filter usableHint
      kind := ((data.getD []).text? "Kind").getD []
      data := data.getD [] }
  | none =>
    { cls := .tree, code := code, message := ((data.getD []).text? "message").getD code
      data := data.getD [] }

def atPlace (d : Diagnostic) (line column : Int64) : Diagnostic :=
  { d with line := line, column := column }

def inFile (d : Diagnostic) (file : Text) : Diagnostic := { d with file := file }

def placeText (line column : Int64) : Text :=
  "line " ++ Text.ofInt line.toInt ++ ", column " ++ Text.ofInt column.toInt

/-- The report on one line, and a line for each hint. -/
def summary (d : Diagnostic) : Text :=
  Text.when (!d.file.isEmpty) (d.file ++ ": ")
    ++ Text.when (0 < d.line) (placeText d.line d.column ++ ": ")
    ++ Text.when (!d.code.isEmpty) (d.code ++ ": ")
    ++ d.message ++ Text.eachAfter "\n  " d.hints

/-- Hints as suggestions: the first one, then the alternatives. -/
def suggestions : List Text → Text
  | [] => []
  | first :: rest => "\n  Try: " ++ first ++ Text.eachAfter "\n   or: " rest

/-- Where the failure is, for a terminal. -/
def heading (d : Diagnostic) : Text :=
  if d.file.isEmpty then
    Text.when (0 < d.line) (": " ++ placeText d.line d.column)
      ++ Text.when (!(0 < d.line)) ":" ++ "\n  "
  else
    ":\n  in: " ++ d.file ++ Text.when (0 < d.line) ("\n  at: " ++ placeText d.line d.column)
      ++ "\n  "

/-- The report for a terminal. -/
def pretty (d : Diagnostic) : Text :=
  (if d.cls = .tree then "Input error" else "Compile error")
    ++ d.heading ++ d.message ++ suggestions d.hints

def isOf (d : Diagnostic) (cls : Class) : Bool := d.cls == cls

/-- Whether a diagnostic has the code and the class of another one. -/
def agreesWith (d other : Diagnostic) : Bool := d.code == other.code && d.cls == other.cls

end Diagnostic

end SheetFormula
