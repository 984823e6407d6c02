import SheetFormula.Entries.Format
import SheetFormula.Formula.Output
import SheetFormula.Json.Writer
import SheetFormula.Yaml.Writer

/-!
# Writing entries

Entries are written as one object or mapping, in order, names repeated or not.
-/

namespace SheetFormula.Entries

/-- A member of a JSON object, with `colon` between name and formula. -/
def member (colon : Text) (e : Binding) : Text := Json.plain e.name ++ colon ++ Json.plain e.formula

/-- The entries as JSON without blanks. -/
def compactJson (es : Entries) : Text :=
  "\x7b" ++ Text.join "," (es.map (member ":")) ++ "\x7d"

/-- The entries as JSON, one on a line. -/
def json (es : Entries) : Text :=
  if es.isEmpty then "\x7b\x7d\n"
  else "\x7b\n  " ++ Text.join ",\n  " (es.map (member ": ")) ++ "\n\x7d\n"

inductive EncodeError where
  /-- YAML has no way to write a text that is not UTF-8. -/
  | yaml
deriving DecidableEq, Repr

def EncodeError.message : EncodeError → Text
  | .yaml => "yaml: <syntax>"

def encode (es : Entries) : Format → Except EncodeError Text
  | .json => .ok es.json
  | .yaml =>
    match Yaml.mapping? (es.map fun e => (e.name, e.formula)) with
    | some t => .ok t
    | none => .error .yaml

end SheetFormula.Entries
