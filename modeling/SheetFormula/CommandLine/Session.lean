import SheetFormula.Batch
import SheetFormula.Diagnostic.Report
import SheetFormula.Store

/-!
# Sessions

A session is what one run of the program changes: files, what is left of the input, what has been
printed, and the store of manifests. A job is what stays the same throughout the run.
-/

namespace SheetFormula

/-- What a run changes. -/
structure Session where
  tree : FileTree
  /-- What has not been read from standard input. -/
  input : Text := []
  console : Console := {}
  /-- The store of manifests, when one is in use. -/
  store : Option Store := none
deriving DecidableEq, Repr

/-- What a run is to do. -/
structure Job where
  settings : Settings
  options : CompileOptions
  threshold : Threshold
  /-- Print artifacts and write no files. -/
  print : Bool := false
  /-- Report diagnostics as JSON. -/
  json : Bool := false
  /-- The time that saved manifests are marked with. -/
  now : Instant
  /-- Whether the run has been interrupted by the time that it has printed a text. -/
  interrupted : Text → Bool

def standardInput : Text := "-"

namespace Session

def print (s : Session) (t : Text) : Session := { s with console := s.console.print t }

/-- Prints a text on the channel for errors. -/
def warn (s : Session) (t : Text) : Session := { s with console := s.console.warn t }

def log (s : Session) (job : Job) (l : LogLine) : Session :=
  { s with console := s.console.log job.threshold l }

def isCanceled (s : Session) (job : Job) : Bool := job.interrupted s.console.out

def report (s : Session) (job : Job) : UnitFailure → Session
  | .diagnostic d => s.warn ((if job.json then d.json else d.pretty) ++ "\n")
  | .failure f => s.warn ("error: " ++ f.message ++ "\n")

/-- Saves the manifest of a unit, if there is a store. -/
def saveManifest (s : Session) (job : Job) (path : Text) (manifest : Entries) :
    Session × Option Failure :=
  match s.store with
  | none => (s, none)
  | some store =>
    match store.save s.tree (s.isCanceled job) job.now path manifest with
    | ((store, tree), failure) =>
      let s := { s with store := some store, tree := tree }
      match failure with
      | some f => (s, some (.during "saving manifest" f))
      | none =>
        let count := Text.ofNat manifest.length
        (s.log job ⟨.debug, "saved " ++ count ++ " exports for " ++ path⟩, none)

/-- Writes the artifact of a unit, and then saves its manifest. -/
def writeOutput (s : Session) (job : Job) (path : Text) (o : Output) : Session × Option Failure :=
  let artifact := artifactPath job.settings.outDir path o.mode.suffix
  match s.tree.makeDirectory (Path.dir artifact) with
  | .error (e, tree) =>
    ({ s with tree := tree }, some (.during "creating output directory" (.file e)))
  | .ok tree =>
    match tree.write artifact o.artifact with
    | .error e =>
      ({ s with tree := tree }, some (.during ("writing " ++ artifact) (.file e)))
    | .ok tree =>
      let s := { s with tree := tree }
      let s := s.log job ⟨.info, "built " ++ path ++ " -> " ++ artifact⟩
      s.saveManifest job path o.manifest

/-- What is done with the output of a unit. -/
abbrev Emit := Session → Text → Output → Session × Option Failure

/-- Prints the output, or writes it next to other artifacts. Output from standard input has no file
to go to. -/
def emitOutput (job : Job) : Emit := fun s path o =>
  if job.print || path = standardInput then (s.print o.artifact, none)
  else s.writeOutput job path o

/-- How a unit is called in the report on a check. -/
def displayName (path : Text) : Text := if path = standardInput then "<stdin>" else path

/-- Says that a unit compiles. -/
def emitVerdict : Emit := fun s path o =>
  (s.print ("ok   " ++ displayName path ++ " (" ++ Text.ofNat o.manifest.length ++ " exports)\n"),
    none)

/-- Compiles what is left on standard input. -/
def compileInput (s : Session) (job : Job) (emit : Emit) : Session × Option UnitFailure :=
  let rest := { s with input := [] }
  let result : Except Diagnostic Output := do
    let program ← Tree.decode s.input
    Output.ofProgram job.options.mode job.options.members (some program)
  match result with
  | .error d => (rest, some (.diagnostic d))
  | .ok o =>
    match emit rest standardInput o with
    | (s, failure) => (s, failure.map .failure)

/-- Units that have failed, and why. -/
abbrev FailedUnits := List (Text × UnitFailure)

/-- A session, and the units that have failed in it. -/
abbrev Tally := Session × FailedUnits

/-- Takes account of how a unit went. -/
def tally (job : Job) (path : Text) (s : Session) (failure : Option UnitFailure)
    (failed : FailedUnits) : Tally :=
  match failure with
  | none => (s, failed)
  | some f => (s.report job f, failed ++ [(path, f)])

/-- Emits the result of a file. -/
def settle (job : Job) (emit : Emit) (t : Tally) (path : Text) : CompileResult → Tally
  | .error f => tally job path t.1 (some f) t.2
  | .ok o =>
    match emit t.1 path o with
    | (s, failure) => tally job path s (failure.map .failure) t.2

/-- The surroundings of a batch whose results are kept, the last one first. -/
def collecting (job : Job) : Batch.Surroundings (Session × List (Text × CompileResult)) where
  isCanceled := fun (s, _) => s.isCanceled job
  log := fun (s, results) l => (s.log job l, results)
  deliver := fun (s, results) path r => ((s, (path, r) :: results), none)

/-- Emits what results have for a file. -/
def settleFrom (job : Job) (emit : Emit) (results : List (Text × CompileResult)) (t : Tally)
    (path : Text) : Tally :=
  match results.lookup path with
  | some r => settle job emit t path r
  | none => t

/-- Compiles files in one batch and then emits the results in order. -/
def compileFiles (s : Session) (job : Job) (emit : Emit) (files : List Text) :
    Session × Except Failure FailedUnits :=
  match Batch.run (collecting job) job.options.mode (s.tree.compileFile job.options) files (s, [])
    with
  | ((s, _), some f) => (s, .error f)
  | ((s, results), none) =>
    let (s, failed) := files.foldl (settleFrom job emit results) (s, [])
    (s, .ok failed)

/-- Emits what comes from standard input. -/
def settleInput (job : Job) (emit : Emit) (t : Tally) : Tally :=
  match t.1.compileInput job emit with
  | (s, failure) => tally job standardInput s failure t.2

/-- Compiles inputs: first what comes from standard input, then the files. -/
def compileUnits (s : Session) (job : Job) (emit : Emit) (inputs : List Text) :
    Session × Except Failure FailedUnits :=
  let (s, failedInputs) :=
    (inputs.filter (· = standardInput)).foldl (fun t _ => settleInput job emit t) (s, [])
  match s.compileFiles job emit (inputs.filter (· ≠ standardInput)) with
  | (s, .error f) => (s, .error f)
  | (s, .ok failedFiles) => (s, .ok (failedInputs ++ failedFiles))

/-- Compiles inputs. The run fails if any of them does. -/
def compileInputs (s : Session) (job : Job) (emit : Emit) (inputs : List Text) :
    Session × Option Failure :=
  match s.compileUnits job emit inputs with
  | (s, .error f) => (s, some f)
  | (s, .ok failed) =>
    if failed.isEmpty then (s, none)
    else
      (s, some (.stated (Text.ofNat failed.length ++ " of " ++ Text.ofNat inputs.length
        ++ " units failed")))

end Session

end SheetFormula
