import SheetFormula.CommandLine.Command
import SheetFormula.CommandLine.Flags
import SheetFormula.CommandLine.Usage
import SheetFormula.Settings.Load

/-!
# Running the program

A run reads its arguments and settings, and then does what it is asked. Settings given as flags
replace those of the settings file.
-/

namespace SheetFormula

/-- What a run finds on its machine, apart from files and standard input. -/
structure Machine where
  environment : Environment
  processors : Nat
  /-- The time that saved manifests are marked with. -/
  now : Instant
  /-- Whether the run has been interrupted by the time that it has printed a text. -/
  interrupted : Text → Bool

namespace Settings

def withManifest (m : ManifestSettings) (flag : Text) : Except Failure ManifestSettings :=
  if flag = "" then .ok m
  else if flag = "off" then .ok { m with enabled := false }
  else if flag = "sqlite" then .ok { m with enabled := true, store := "sqlite" }
  else if flag = "json" || flag = "yaml" then
    .ok { m with enabled := true, store := "file", format := flag }
  else
    .error (.stated ("invalid --manifest " ++ flag.quoted
      ++ " (must be json, yaml, sqlite or off)"))

def withFlags (s : Settings) (f : Flags) : Except Failure Settings := do
  let manifest ← withManifest s.manifest f.manifest
  let chosen (flag setting : Text) : Text := if flag.isEmpty then setting else flag
  return { s with
    mode := chosen f.mode s.mode
    members := chosen f.members s.members
    outDir := chosen f.outDir s.outDir
    manifest := manifest
    level := if f.quiet || s.quiet then "error" else s.level }

/-- How settings say that units are compiled, and which messages are shown. -/
def compileOptions (s : Settings) : Except Failure (CompileOptions × Threshold) := do
  let mode ← (OutputMode.parse s.mode).mapError .stated
  let members ← (MemberMode.parse s.members).mapError .stated
  let threshold ← (Threshold.parse s.level).mapError .stated
  return ({ mode := mode, members := members }, threshold)

/-- The settings of a run: those of the file, changed by flags and found valid. -/
def ofRun (m : Machine) (t : FileTree) (f : Flags) : Except Failure Settings := do
  let (s, _) ← (load m.environment t f.config).mapError (.during "loading config")
  let s ← s.withFlags f
  match s.objection? with
  | some text => throw (.during "config validation" (.stated text))
  | none => return s

end Settings

namespace Session

/-- What a run ends with: the watcher of one that goes on to watch, or a failure, or neither. -/
inductive Ending where
  | done
  | failed (f : Failure)
  | watching (job : Job) (w : Watcher)

def Ending.failure? : Ending → Option Failure
  | failed f => some f
  | done | watching .. => none

def Ending.ofFailure? : Option Failure → Ending
  | none => done
  | some f => failed f

def perform (s : Session) (job : Job) (inputs : List Text) : Command → Session × Ending
  | .build => (s.build job inputs).map id Ending.ofFailure?
  | .check => (s.check job inputs).map id Ending.ofFailure?
  | .expr => (s.expr job inputs).map id Ending.ofFailure?
  | .watch =>
    match s.startWatch job inputs with
    | (s, .ok w) => (s, .watching job w)
    | (s, .error f) => (s, .failed f)

def runCommand (s : Session) (m : Machine) (c : Command) (f : Flags) (inputs : List Text) :
    Session × Ending :=
  match Settings.ofRun m s.tree f with
  | .error failure => (s, .failed failure)
  | .ok settings =>
    let s := s.warn (Text.eachBefore "\n" ((settings.warnings m.processors).map ("warning: " ++ ·)))
    match settings.compileOptions with
    | .error failure => (s, .failed failure)
    | .ok (options, threshold) =>
      let job : Job :=
        { settings := settings, options := options, threshold := threshold, print := f.print
          json := f.json, now := m.now, interrupted := m.interrupted }
      s.perform job inputs c

def run (s : Session) (m : Machine) (arguments : List Text) : Session × Ending :=
  let (c, arguments) := Command.ofArguments arguments
  match Flags.parse arguments with
  | .help => (s.print Usage.text, .done)
  | .wrong e => (s.warn Usage.text, .failed (.stated e.message))
  | .flags f inputs =>
    if f.help then (s.print Usage.text, .done)
    else if f.version then (s.print Usage.version, .done)
    else s.runCommand m c f inputs

end Session

end SheetFormula
