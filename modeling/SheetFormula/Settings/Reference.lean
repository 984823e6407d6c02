import SheetFormula.Text

/-!
# References to the environment

A settings file may refer to variables of the environment: a reference to a name stands for the
value of the variable, or for a default when that value is empty. References are replaced in one
pass; values are not looked at again.
-/

namespace SheetFormula

/-- The values of variables; a variable that is not set has the empty value. -/
abbrev Environment := Text → Text

structure Reference where
  name : Text
  /-- What stands in for an empty value. -/
  default : Option Text := none
deriving DecidableEq, Repr

namespace Reference

def text (r : Reference) : Text :=
  "$\x7b" ++ r.name ++ Text.eachAfter ":-" r.default.toList ++ "\x7d"

def value (env : Environment) (r : Reference) : Text :=
  let v := env r.name
  if v.isEmpty then r.default.getD [] else v

def isNameByte (b : UInt8) : Bool := b != '\x7d' && b != ':'

def isDefaultByte (b : UInt8) : Bool := b != '\x7d'

/-- The reference that a text starts with. -/
def atStart? (t : Text) : Option Reference := do
  let body ← Text.dropStart? "$\x7b" t
  let name := body.takeWhile isNameByte
  let rest := body.dropWhile isNameByte
  if name.isEmpty then none
  else
    match Text.dropStart? ":-" rest with
    | some more =>
      if (more.dropWhile isDefaultByte).isEmpty then none
      else some ⟨name, some (more.takeWhile isDefaultByte)⟩
    | none => if Text.startsWith "\x7d" rest then some ⟨name, none⟩ else none

/-- Replaces the references of a text behind its first `skip` bytes, which belong to one that has
been replaced. -/
def expandFrom (env : Environment) : (skip : Nat) → Text → Text
  | _, [] => []
  | skip + 1, _ :: rest => expandFrom env skip rest
  | 0, b :: rest =>
    match atStart? (b :: rest) with
    | some r => r.value env ++ expandFrom env (r.text.length - 1) rest
    | none => b :: expandFrom env 0 rest

/-- Replaces the references of a text. -/
def expand (env : Environment) (t : Text) : Text := expandFrom env 0 t

end Reference

end SheetFormula
