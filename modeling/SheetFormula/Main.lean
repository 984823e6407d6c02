import SheetFormula.CommandLine.Run

/-!
# The program

The outer layer reads the files that the arguments name into a file tree, runs the program on it,
and writes what has changed. It lists no directories and writes no database files, so units have to
be named one by one and databases live in memory.
-/

namespace SheetFormula.Program

/-- A text as a string; one that is not UTF-8 is empty. -/
def spell (t : Text) : String := (String.fromUTF8? ⟨t.toArray⟩).getD ""

/-- Reads what stands at an absolute path into a file tree. -/
def survey (t : FileTree) (path : Text) : IO FileTree := do
  try
    let content ← IO.FS.readBinFile (spell path)
    return t.put (Path.components path) (.file content.toList)
  catch
    | .inappropriateType .. => return t.put (Path.components path) .directory
    | _ => return t

/-- Reads what stands at a path and on the way to it into a file tree. -/
def explore (t : FileTree) (path : Text) : IO FileTree :=
  (FileTree.onTheWay (Path.within (Path.absolute t.here) path)).foldlM survey t

/-- The variables that a settings file refers to. -/
def referenced (t : FileTree) (path : Text) : List Text :=
  match t.read path with
  | .ok content =>
    (List.range content.length).filterMap fun n =>
      (Reference.atStart? (content.drop n)).map (·.name)
  | .error _ => []

def environment (names : List Text) : IO Environment := do
  let values ← names.mapM fun name => do
    return (name, Text.ofString ((← IO.getEnv (spell name)).getD ""))
  return fun name => (values.lookup name).getD []

/-- Makes the directories and writes the files that are new or different, the outer ones first.
Says whether all of them could be written. -/
def carryOut (before after : FileTree) : IO Bool := do
  let mut complete := true
  for (l, e) in after.entries.mergeSort fun a b => a.1.length ≤ b.1.length do
    if before.get? l ≠ some e then
      let path := spell (Path.absolute l)
      match e with
      | .directory => IO.FS.createDirAll path
      | .file content => IO.FS.writeBinFile path ⟨content.toArray⟩
      | .database _ =>
        IO.eprintln s!"error: {path}: database files cannot be written"
        complete := false
  return complete

def flush (c : Console) : IO Unit := do
  let out ← IO.getStdout
  let err ← IO.getStderr
  out.write ⟨c.out.toArray⟩
  err.write ⟨c.err.toArray⟩
  out.flush
  err.flush

/-- How many processors the machine has, or one if it does not tell. -/
def processors : IO Nat := do
  try
    let lines ← IO.FS.lines "/proc/cpuinfo"
    return (lines.filter fun l => l.startsWith "processor").size
  catch _ => return 1

/-- The inputs that a run reads: none if it only shows a text about itself. -/
def inputs (c : Command) (f : Flags) (given : List Text) : List Text :=
  if f.help || f.version then []
  else if !given.isEmpty then given
  else if c = .watch then ["."]
  else [standardInput]

/-- Reads the files of a run into a file tree, with the machine as the run finds it. -/
def prepare (f : Flags) (inputs : List Text) : IO (FileTree × Machine) := do
  let here := Path.components (Text.ofString (toString (← IO.currentDir)))
  let named := (← environment [Settings.fileVariable]) Settings.fileVariable
  let settings : List Text := [Settings.defaultFile, named, f.config].filter (!·.isEmpty)
  let paths : List Text := "." :: (settings ++ inputs)
  let tree ← paths.foldlM explore { here := here }
  let machine : Machine :=
    { environment := ← environment (Settings.fileVariable :: settings.flatMap (referenced tree))
      processors := ← processors
      now := ⟨0⟩
      interrupted := fun _ => false }
  match Settings.ofRun machine tree f with
  | .ok s => return (← explore tree s.outDir, machine)
  | .error _ => return (tree, machine)

def run (arguments : List Text) : IO UInt32 := do
  let (c, rest) := Command.ofArguments arguments
  let (f, inputs) := match Flags.parse rest with
    | .flags f given => (f, inputs c f given)
    | .help | .wrong _ => ({}, [])
  let (tree, machine) ← prepare f inputs
  if let some dir := inputs.find? fun p => (tree.find p).toOption.any Entry.isDirectory then
    IO.eprintln s!"error: {spell dir}: directories cannot be listed"
    return 1
  let input ← if inputs.contains standardInput then (← IO.getStdin).readToEnd else pure ""
  let session : Session := { tree := tree, input := input }
  let (s, ending) := session.run machine arguments
  let complete ← carryOut tree s.tree
  flush s.console
  match ending.failure? with
  | some failure =>
    IO.eprintln s!"error: {spell failure.message}"
    return 1
  | none => return if complete then 0 else 1

end SheetFormula.Program

def main (arguments : List String) : IO UInt32 :=
  SheetFormula.Program.run (arguments.map SheetFormula.Text.ofString)
