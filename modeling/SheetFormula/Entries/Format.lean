import SheetFormula.Text.Blank
import SheetFormula.Text.Quoted

/-!
# Formats of written entries
-/

namespace SheetFormula

inductive Format where
  | json
  | yaml
deriving DecidableEq, Repr

namespace Format

/-- The name of a format, which is also its file extension. -/
def name : Format → Text
  | .json => "json"
  | .yaml => "yaml"

/-- The format of a word, JSON for none; an unknown word gives a message. -/
def parse (t : Text) : Except Text Format :=
  let w := t.word
  if w = "" || w = "json" then .ok .json
  else if w = "yaml" || w = "yml" then .ok .yaml
  else .error ("unknown format " ++ t.quoted ++ " (must be json or yaml)")

end Format

end SheetFormula
