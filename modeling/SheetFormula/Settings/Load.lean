import SheetFormula.Failure
import SheetFormula.Settings.Decode
import SheetFormula.Settings.Reference

/-!
# Finding and loading settings

The settings file is the one asked for, or the one that the environment names, or the one with the
default name in the working directory. Without any of them the default settings hold.
-/

namespace SheetFormula.Settings

/-- The name of the settings file in the working directory. -/
def defaultFile : Text := "jsxl.yaml"

/-- The variable that names a settings file. -/
def fileVariable : Text := "JSXL_CONFIG"

/-- The path of the settings file; none if the default settings hold. -/
def choose (env : Environment) (t : FileTree) (asked : Text) : Except Failure (Option Text) :=
  let named := env fileVariable
  if !asked.isEmpty then
    if t.isThere asked then .ok (some asked)
    else .error (.stated ("config file not found: " ++ asked))
  else if !named.isEmpty then
    if t.isThere named then .ok (some named)
    else .error (.stated ("JSXL_CONFIG file not found: " ++ named))
  else .ok (if t.isThere defaultFile then some defaultFile else none)

/-- The database that lives in memory only. -/
def inMemory : Text := ":memory:"

/-- A path as seen from the base directory; an empty one stays empty. -/
def rebase (s : Settings) (p : Text) : Text :=
  if p.isEmpty || Path.isAbsolute p then p else Path.join s.baseDir p

/-- The settings with all paths made absolute. -/
def rebased (s : Settings) : Settings :=
  { s with
    outDir := s.rebase s.outDir
    manifest :=
      { s.manifest with
        database :=
          if s.manifest.database = inMemory then inMemory else s.rebase s.manifest.database } }

/-- The settings, and the absolute path of the file that they come from, if any. -/
def load (env : Environment) (t : FileTree) (asked : Text) :
    Except Failure (Settings × Option Text) := do
  match ← choose env t asked with
  | none => return (rebased { baseDir := Path.absolute t.here }, none)
  | some path =>
    let file := Path.within (Path.absolute t.here) path
    let content ← (t.read path).mapError fun e => .during "failed to read config" (.file e)
    let s ← (decode (Reference.expand env content)).mapError fun e =>
      .during "failed to parse config" (.stated e.message)
    let s := rebased { s with baseDir := Path.dir file }
    match s.objection? with
    | some text => throw (.stated text)
    | none => return (s, some file)

end SheetFormula.Settings
