import SheetFormula.Text.Blank
import SheetFormula.Text.Quoted

/-!
# Member modes

How a chain of property accesses becomes `INDEX` calls.
-/

namespace SheetFormula

/-- The ways to lower a chain of property accesses. -/
inductive MemberMode where
  /-- The whole chain becomes one call: `a.b.c.d` is `INDEX(a, b, c, d)`. -/
  | nested
  /-- A call takes at most two keys: `a.b.c.d` is `INDEX(INDEX(a, b), c, d)`. -/
  | twoLevel
deriving DecidableEq, Repr

namespace MemberMode

def name : MemberMode → Text
  | .nested => "nested"
  | .twoLevel => "two-level"

/-- The mode of a word, `nested` for none; an unknown word gives a message. -/
def parse (t : Text) : Except Text MemberMode :=
  let w := t.word
  if w = "" || w = "nested" then .ok .nested
  else if w = "two-level" || w = "twolevel" then .ok .twoLevel
  else .error ("unknown member mode " ++ t.quoted ++ " (must be nested or two-level)")

end MemberMode

end SheetFormula
