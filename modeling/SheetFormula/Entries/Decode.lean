import SheetFormula.Entries.Format
import SheetFormula.Formula.Output
import SheetFormula.Json.Reader
import SheetFormula.Yaml.Node

/-!
# Reading entries

Entries are read from one object or mapping of texts, in order. An absent list differs from an
empty one: only a YAML mapping without pairs is empty.
-/

namespace SheetFormula.Entries

inductive DecodeError where
  | json
  | yaml
  /-- The document is YAML, but its root is no mapping. -/
  | yamlKind (number : Nat)
deriving DecidableEq, Repr

def DecodeError.message : DecodeError → Text
  | .json => "decoding formulas: <json>"
  | .yaml => "yaml: <syntax>"
  | .yamlKind number => "formulas: expected a mapping, got YAML kind " ++ Text.ofNat number

/-- The entry of a JSON member: null stands for the empty formula. -/
def ofMember? : Json.Name × Json.Value → Option Binding
  | (.raw _, _) => none
  | (name, .string t) => some ⟨name.toText, t⟩
  | (name, .null) => some ⟨name.toText, []⟩
  | _ => none

/-- The entries of the JSON value that a text starts with. -/
def ofJson (t : Text) : Except DecodeError (Option Entries) :=
  match Json.read? t with
  | some (.null, _) => .ok none
  | some (.object members, _) =>
    match members.mapM ofMember? with
    | some [] => .ok none
    | some es => .ok (some es)
    | none => .error .json
  | _ => .error .json

/-- The entries of the first YAML document of a text. -/
def ofYaml (t : Text) : Except DecodeError (Option Entries) :=
  match Yaml.document? t with
  | none => .error .yaml
  | some none => .ok none
  | some (some d) =>
    match d.root with
    | .mapping _ _ pairs => .ok (some (pairs.map fun (k, v) => ⟨k.value, v.value⟩))
    | .scalar _ tag value =>
      if tag ≠ "!!null" then .error (.yamlKind 8)
      else if Yaml.resolve false value = .null then .ok none
      else .error .yaml
    | n => .error (.yamlKind n.kindNumber)

def decode (t : Text) : Format → Except DecodeError (Option Entries)
  | .json => ofJson t
  | .yaml => ofYaml t

end SheetFormula.Entries
