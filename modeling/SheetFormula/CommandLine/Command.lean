import SheetFormula.CommandLine.Session
import SheetFormula.Discovery
import SheetFormula.Watch

/-!
# Commands

The four things that the program can be asked to do.
-/

namespace SheetFormula

inductive Command where
  | build
  | check
  | watch
  | expr
deriving DecidableEq, Repr

namespace Command

def table : List (Text × Command) :=
  [("build", build), ("check", check), ("watch", watch), ("expr", expr)]

/-- The command that arguments start with, and the other arguments. Building needs no name. -/
def ofArguments : List Text → Command × List Text
  | [] => (build, [])
  | a :: rest =>
    match table.lookup a with
    | some c => (c, rest)
    | none => (build, a :: rest)

end Command

namespace Session

/-- The units of an argument: itself, or all units in a directory. -/
def unitsOf (t : FileTree) (argument : Text) : Except Failure (List Text) :=
  if argument = standardInput then .ok [argument]
  else
    match t.locate argument with
    | .error fault => .error (.during "reading input" (.file ⟨"stat", argument, fault⟩))
    | .ok l =>
      match t.get? l with
      | none => .error (.during "reading input" (.file ⟨"stat", argument, .missing⟩))
      | some .directory => .ok (t.unitsBelow argument l)
      | some _ => .ok [argument]

/-- The units of all arguments; without any, standard input. -/
def expandInputs (t : FileTree) (arguments : List Text) : Except Failure (List Text) :=
  if arguments.isEmpty then .ok [standardInput]
  else (arguments.mapM (unitsOf t)).map List.flatten

/-- Opens the store of manifests, if manifests are wanted. -/
def openStore (s : Session) (job : Job) : Except Failure Session :=
  if !job.settings.manifest.enabled then .ok s
  else
    match Store.openFor s.tree job.settings.manifest job.settings.outDir with
    | .ok (store, tree) => .ok { s with store := some store, tree := tree }
    | .error f => .error (.during "opening manifest store" f)

def closeStore (s : Session) : Session := { s with store := s.store.map Store.close }

/-- Compiles units and writes or prints their artifacts. -/
def build (s : Session) (job : Job) (arguments : List Text) : Session × Option Failure :=
  match expandInputs s.tree arguments with
  | .error f => (s, some f)
  | .ok inputs =>
    match if job.print then .ok s else s.openStore job with
    | .error f => (s, some f)
    | .ok s =>
      match s.compileInputs job (emitOutput job) inputs with
      | (s, failure) => (s.closeStore, failure)

/-- Compiles units and says which of them compile. -/
def check (s : Session) (job : Job) (arguments : List Text) : Session × Option Failure :=
  match expandInputs s.tree arguments with
  | .error f => (s, some f)
  | .ok inputs => s.compileInputs job emitVerdict inputs

def watchedUnits (t : FileTree) (dir : Text) : Except Failure (List Text) :=
  match t.locate dir with
  | .error fault => .error (.during "watch" (.file ⟨"stat", dir, fault⟩))
  | .ok l =>
    match t.get? l with
    | none => .error (.during "watch" (.file ⟨"stat", dir, .missing⟩))
    | some .directory => .ok (t.unitsBelow dir l)
    | some _ => .error (.during "watch" (.stated (dir ++ " is not a directory")))

/-- Builds all units of some directories and starts to watch these. -/
def startWatch (s : Session) (job : Job) (arguments : List Text) :
    Session × Except Failure Watcher :=
  let dirs : List Text := if arguments.isEmpty then ["."] else arguments
  match dirs.mapM (watchedUnits s.tree) with
  | .error f => (s, .error f)
  | .ok units =>
    match s.openStore job with
    | .error f => (s, .error f)
    | .ok s =>
      match s.compileFiles job (emitOutput job) units.flatten with
      | (s, .error f) => (s.closeStore, .error f)
      | (s, .ok _) =>
        let (w, failure) := Watcher.start s.tree dirs {}
        let s := w.log.foldl (fun s l => s.log job l) s
        match failure with
        | some f => (s.closeStore, .error f)
        | none => (s.log job ⟨.info, "watching for changes (Ctrl+C to stop)"⟩, .ok w)

def rebuild (s : Session) (job : Job) (path : Text) : Session :=
  let s := s.log job ⟨.info, "changed: " ++ path⟩
  match s.compileFiles job (emitOutput job) [path] with
  | (s, .ok _) => s
  | (s, .error f) => s.log job ⟨.error, "rebuilding " ++ path ++ ": " ++ f.message⟩

def expr (s : Session) (job : Job) (arguments : List Text) : Session × Option Failure :=
  let content : Except Failure (Session × Text) :=
    match arguments with
    | [] => .ok ({ s with input := [] }, s.input)
    | [argument] =>
      if argument = standardInput then .ok ({ s with input := [] }, s.input)
      else
        match s.tree.read argument with
        | .ok t => .ok (s, t)
        | .error e => .error (.during "reading expression" (.file e))
    | _ =>
      .error (.stated ("expr takes a single input, got " ++ Text.ofNat arguments.length))
  match content with
  | .error f => (s, some f)
  | .ok (s, t) =>
    let formula : Except Diagnostic Text := do
      let n ← Tree.decodeNode t
      Formula.ofNode job.options.members (some n)
    match formula with
    | .ok formula => (s.print ("=" ++ formula ++ "\n"), none)
    | .error d =>
      (s.report job (.diagnostic d), some (.stated "expression failed to compile"))

end Session

end SheetFormula
