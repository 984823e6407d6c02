import SheetFormula.Formula.Unit

/-!
# Output of a unit

A unit is written either packed, as one formula with all module bindings inside, or unpacked, as
one named formula for each binding and one for the entry. Its named exports form a manifest. Written
formulas start with an equals sign.
-/

namespace SheetFormula

inductive OutputMode where
  | packed
  | unpacked
deriving DecidableEq, Repr

namespace OutputMode

def name : OutputMode → Text
  | .packed => "packed"
  | .unpacked => "unpacked"

/-- The mode of a word, `packed` for none; an unknown word gives a message. -/
def parse (t : Text) : Except Text OutputMode :=
  let w := t.word
  if w = "" || w = "packed" then .ok .packed
  else if w = "unpacked" then .ok .unpacked
  else .error ("unknown mode " ++ t.quoted ++ " (must be packed or unpacked)")

end OutputMode

/-- Named formulas as they are written, in order. -/
abbrev Entries := List Binding

namespace Entries

/-- The formula of the first entry with a name. -/
def get? (es : Entries) (name : Text) : Option Text := (es.find? (·.name = name)).map (·.formula)

def names (es : Entries) : List Text := es.map (·.name)

/-- The entries by name, ascending: of entries with one name the last counts. -/
def table (es : Entries) : List (Text × Text) :=
  (Text.sort es.names.eraseDups).filterMap fun name =>
    (Entries.get? es.reverse name).map (name, ·)

end Entries

/-- The name of the entry formula in unpacked output. -/
def mainName : Text := "_main_"

def Binding.written (b : Binding) : Binding := ⟨b.name, "=" ++ b.formula⟩

structure Output where
  mode : OutputMode
  /-- The single formula of packed output. -/
  packed : Text := []
  /-- The formulas of unpacked output. -/
  unpacked : Entries := []
  /-- The named exports. -/
  manifest : Entries
  unit : CompiledUnit
deriving DecidableEq, Repr

namespace Output

/-- The entry formula. -/
def main (o : Output) : Text :=
  match o.mode with
  | .packed => o.packed
  | .unpacked => (o.unpacked.get? mainName).getD []

/-- The output of a compiled unit whose program stands at `pos`. -/
def ofUnit (mode : OutputMode) (pos : Position) (u : CompiledUnit) : Except Diagnostic Output :=
  let manifest := u.exports.map Binding.written
  match mode with
  | .packed =>
    .ok { mode, packed := "=" ++ Formula.letIn u.bindings u.main, manifest, unit := u }
  | .unpacked =>
    if u.bindings.any (·.name = mainName) then .error ((Fault.reserved mainName).reportAt pos)
    else
      .ok { mode, unpacked := u.bindings.map Binding.written ++ [⟨mainName, "=" ++ u.main⟩]
            manifest, unit := u }

/-- The output of a program that may be missing. -/
def ofProgram (mode : OutputMode) (members : MemberMode) :
    Option Program → Except Diagnostic Output
  | none => .error (Fault.badTree .noProgram).report
  | some p => do
    let u ← Formula.compile members p
    ofUnit mode p.pos u

end Output

end SheetFormula
