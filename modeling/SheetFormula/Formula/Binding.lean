import SheetFormula.Text

/-!
# Named formulas

A binding is a name with its formula. Later bindings may use earlier ones, so lists of them are
ordered.
-/

namespace SheetFormula

/-- A name with its formula. -/
structure Binding where
  name : Text
  formula : Text
deriving DecidableEq, Repr

/-- A binding as the two leading arguments of a `LET`. -/
def Binding.argument (b : Binding) : Text := b.name ++ ", " ++ b.formula ++ ", "

namespace Formula

/-- The arguments of a call, in parentheses after its name. -/
def call (name : Text) (arguments : List Text) : Text :=
  name ++ "(" ++ Text.join ", " arguments ++ ")"

/-- `body` where the bindings hold: one `LET` over all of them, or `body` alone without any. -/
def letIn (bindings : List Binding) (body : Text) : Text :=
  if bindings.isEmpty then body
  else "LET(" ++ bindings.flatMap Binding.argument ++ body ++ ")"

end Formula

end SheetFormula
