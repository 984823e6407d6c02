import SheetFormula.Duration
import SheetFormula.Text.Blank

/-!
# Settings

The settings of a run, what can be wrong with them, and what deserves a warning. Words are kept as
they were given, so that messages can repeat them.
-/

namespace SheetFormula

/-- Where manifests are kept. -/
structure ManifestSettings where
  enabled : Bool := true
  format : Text := "json"
  /-- The kind of store: `file` or `sqlite`. -/
  store : Text := "file"
  /-- The path of the database. -/
  database : Text := "jsxl.db"
deriving DecidableEq, Repr

structure Settings where
  /-- The directory that relative paths refer to. -/
  baseDir : Text := []
  mode : Text := "packed"
  members : Text := "nested"
  /-- Where artifacts are written; empty for the directory of each unit. -/
  outDir : Text := []
  /-- How many units are compiled at a time; 0 for one on each processor. -/
  workers : Int64 := 0
  manifest : ManifestSettings := {}
  /-- How long a file must be quiet before it is compiled again. -/
  debounce : Duration := Duration.ofMilliseconds 100
  level : Text := "info"
  quiet : Bool := false
deriving DecidableEq, Repr

namespace Settings

inductive Violation where
  | mode (given : Text)
  | members (given : Text)
  | workers (given : Int64)
  | format (given : Text)
  | store (given : Text)
  | noDatabase
  | debounce (given : Duration)
  | level (given : Text)
deriving DecidableEq, Repr

def Violation.message : Violation → Text
  | mode given => "invalid mode: " ++ given ++ " (must be packed or unpacked)"
  | members given => "invalid members: " ++ given ++ " (must be nested or two-level)"
  | workers given => "invalid workers: " ++ Text.ofInt given.toInt ++ " (must be 0 or more)"
  | format given => "manifest: invalid format: " ++ given ++ " (must be json or yaml)"
  | store given => "manifest: invalid store: " ++ given ++ " (must be file or sqlite)"
  | noDatabase => "manifest: store sqlite requires manifest.sqlite"
  | debounce given => "watch: invalid debounce: " ++ given.text
  | level given => "invalid log level: " ++ given ++ " (must be debug, info, warn, or error)"

/-- A violation unless a condition holds. -/
def require (holds : Bool) (v : Violation) : List Violation := if holds then [] else [v]

def modeWords : List Text := ["packed", "unpacked"]

def memberWords : List Text := ["nested", "two-level", "twolevel"]

def formatWords : List Text := ["json", "yaml", "yml"]

/-- The words for the levels of a log that settings may ask for. -/
def levelWords : List Text := ["debug", "info", "warn", "error"]

/-- The rules on the store of manifests. -/
def storeViolations (m : ManifestSettings) : List Violation :=
  if m.store = "file" then []
  else if m.store = "sqlite" then require (!m.database.isEmpty) .noDatabase
  else [.store m.store]

/-- The rules that settings break, in a fixed order. -/
def violations (s : Settings) : List Violation :=
  require (modeWords.contains s.mode.lower) (.mode s.mode)
    ++ require (memberWords.contains s.members.lower) (.members s.members)
    ++ require (0 ≤ s.workers) (.workers s.workers)
    ++ require (formatWords.contains s.manifest.format.lower) (.format s.manifest.format)
    ++ storeViolations s.manifest
    ++ require (!s.debounce.isNegative) (.debounce s.debounce)
    ++ require (levelWords.contains s.level) (.level s.level)

/-- The report on settings that break some rule. -/
def objection? (s : Settings) : Option Text :=
  match s.violations with
  | [] => none
  | vs => some ("configuration errors:" ++ Text.eachAfter "\n  - " (vs.map Violation.message))

/-- What deserves a warning on a machine with some processors. -/
def warnings (processors : Nat) (s : Settings) : List Text :=
  let given (c : Bool) (t : Text) : List Text := if c then [t] else []
  let database := s.manifest.store == "sqlite"
  given (!s.manifest.enabled && database)
      "manifest: store is sqlite but manifests are disabled - nothing will be written"
    ++ given (database && s.manifest.format != "json")
      "manifest: format is ignored by the sqlite store"
    ++ given (4 * (processors : Int) < s.workers.toInt)
      ("workers: " ++ Text.ofInt s.workers.toInt ++ " is far above the "
        ++ Text.ofNat processors ++ " available CPUs")
    ++ given (0 < s.debounce.nanoseconds && s.debounce.nanoseconds < 10000000)
      "watch: debounce below 10ms may recompile a file several times per save"
    ++ given (s.quiet && s.level == "debug") "logging: quiet overrides level debug"

end Settings

end SheetFormula
