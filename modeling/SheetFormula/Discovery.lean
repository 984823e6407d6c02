import SheetFormula.FileTree
import SheetFormula.Text.Blank

/-!
# Finding units

A unit is a visible JSON file that is not an artifact. Units are looked for in a directory and all
its visible subdirectories.
-/

namespace SheetFormula

def isUnit (p : Text) : Bool :=
  let name := (Path.base p).lower
  !FileTree.isHidden name && Path.extension name == ".json"
    && !Text.endsWith ".exports.json" name && !Text.endsWith ".formulas.json" name

namespace FileTree

/-- The paths of the units in a directory and below, in the order of a walk. -/
def unitsBelow (t : FileTree) (root : Text) (dir : Location) : List Text :=
  (t.visible dir).filterMap fun (l, e) =>
    let p := pathBelow root l
    if !e.isDirectory && isUnit p then some p else none

/-- The directory at a path and all its visible subdirectories, with their paths. -/
def directoriesBelow (t : FileTree) (root : Text) (dir : Location) : List (Location × Text) :=
  (dir, root) :: (t.visible dir).filterMap fun (l, e) =>
    if e.isDirectory then some (dir ++ l, pathBelow root l) else none

end FileTree

end SheetFormula
