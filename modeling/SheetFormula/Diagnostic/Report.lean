import SheetFormula.Diagnostic
import SheetFormula.Json.Writer

/-!
# Diagnostics as JSON

A report is one JSON object on one line. Hints, kind, file and values are left out when empty, and
the values are ordered by name.
-/

namespace SheetFormula

def Datum.json : Datum → Text
  | .text t => Json.safe t
  | .int n => Text.ofInt n
  | .bool true => "true"
  | .bool false => "false"
  | .null => "null"

def Json.safeMember (name value : Text) : Text := Json.safe name ++ ":" ++ value

/-- Named values as an object, ascending by name. -/
def Data.json (data : Data) : Text :=
  "\x7b"
    ++ Text.join "," ((data.mergeSort fun a b => Text.le a.1 b.1).map fun (name, value) =>
      Json.safeMember name value.json)
    ++ "\x7d"

/-- A member that is there only under a condition. -/
def Diagnostic.present (c : Bool) (name value : Text) : List (Text × Text) :=
  if c then [(name, value)] else []

/-- The members of a report, with their values as JSON. -/
def Diagnostic.members (d : Diagnostic) : List (Text × Text) :=
  present true "class" (Json.safe d.cls.name)
    ++ present true "code" (Json.safe d.code)
    ++ present true "message" (Json.safe d.message)
    ++ present (!d.hints.isEmpty) "hints" ("[" ++ Text.join "," (d.hints.map Json.safe) ++ "]")
    ++ present (!d.kind.isEmpty) "kind" (Json.safe d.kind)
    ++ present true "line" (Text.ofInt d.line.toInt)
    ++ present true "column" (Text.ofInt d.column.toInt)
    ++ present (!d.file.isEmpty) "file" (Json.safe d.file)
    ++ present (!d.data.isEmpty) "data" d.data.json

/-- The report of a diagnostic as one line of JSON. -/
def Diagnostic.json (d : Diagnostic) : Text :=
  "\x7b" ++ Text.join "," (d.members.map fun (name, value) => Json.safeMember name value) ++ "\x7d"

end SheetFormula
