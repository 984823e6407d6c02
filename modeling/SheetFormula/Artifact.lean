import SheetFormula.Entries.Encode
import SheetFormula.Path

/-!
# Artifacts

What a unit's output looks like as a file, and where that file goes: next to the unit, or into one
directory for all units.
-/

namespace SheetFormula

/-- The path of a file that belongs to a unit: the unit's name with another extension. -/
def artifactPath (outDir unit suffix : Text) : Text :=
  let p := Path.stem unit ++ suffix
  if outDir.isEmpty then p else Path.join outDir (Path.base p)

namespace OutputMode

/-- The extension of the artifact. -/
def suffix : OutputMode → Text
  | packed => ".formula"
  | unpacked => ".formulas.json"

end OutputMode

/-- The content of the artifact: a line with the formula, or all formulas as JSON. -/
def Output.artifact (o : Output) : Text :=
  match o.mode with
  | .packed => o.packed ++ "\n"
  | .unpacked => o.unpacked.json

end SheetFormula
