import SheetFormula.CommandLine.Run
import SheetFormula.Proofs.Result
import SheetFormula.Proofs.Text
import SheetFormula.Proofs.Text.Symbol

/-!
# Validated settings are accepted

Settings are checked against lists of words, and later the words are read by parsers that have lists
of their own and that also look past blanks. A word whose lower case is on a list has no blanks
around it, so every word that passes the check is read, and as what it names.
-/

namespace SheetFormula

/-! ### Words without blanks -/

namespace Symbol

end Symbol

namespace Text

variable {t w : Text}

end Text

/-! ### What words name -/

def MemberMode.spellings : MemberMode → List Text
  | nested => ["nested"]
  | twoLevel => ["two-level", "twolevel"]

def Format.spellings : Format → List Text
  | json => ["json"]
  | yaml => ["yaml", "yml"]

def Severity.name : Severity → Text
  | debug => "debug"
  | info => "info"
  | warn => "warn"
  | error => "error"

namespace Settings

/-! ### The lists of words -/

section

variable {w : Text}

lemma mem_modeWords : w ∈ modeWords ↔ ∃ m : OutputMode, w = m.name := by
  rw [modeWords, List.mem_pair]
  constructor
  · rintro (h | h)
    exacts [⟨.packed, h⟩, ⟨.unpacked, h⟩]
  · rintro ⟨_ | _, h⟩
    exacts [.inl h, .inr h]

lemma mem_memberWords : w ∈ memberWords ↔ ∃ m : MemberMode, w ∈ m.spellings := by
  have hwords : memberWords = MemberMode.nested.spellings ++ MemberMode.twoLevel.spellings := rfl
  rw [hwords, List.mem_append]
  constructor
  · rintro (h | h)
    exacts [⟨.nested, h⟩, ⟨.twoLevel, h⟩]
  · rintro ⟨_ | _, h⟩
    exacts [.inl h, .inr h]

lemma mem_formatWords : w ∈ formatWords ↔ ∃ f : Format, w ∈ f.spellings := by
  have hwords : formatWords = Format.json.spellings ++ Format.yaml.spellings := rfl
  rw [hwords, List.mem_append]
  constructor
  · rintro (h | h)
    exacts [⟨.json, h⟩, ⟨.yaml, h⟩]
  · rintro ⟨_ | _, h⟩
    exacts [.inl h, .inr h]

lemma mem_levelWords : w ∈ levelWords ↔ ∃ v : Severity, w = v.name := by
  simp only [levelWords, List.mem_cons, List.not_mem_nil, or_false]
  constructor
  · rintro (h | h | h | h)
    exacts [⟨.debug, h⟩, ⟨.info, h⟩, ⟨.warn, h⟩, ⟨.error, h⟩]
  · rintro ⟨_ | _ | _ | _, h⟩
    exacts [.inl h, .inr (.inl h), .inr (.inr (.inl h)), .inr (.inr (.inr h))]

end

/-! ### Rules -/

/-- The groups of rules on settings. -/
inductive Rule where
  | mode
  | members
  | workers
  | format
  | store
  | debounce
  | level
deriving DecidableEq, Repr

namespace Rule

/-- Every group, in the order of a report. -/
def all : List Rule := [mode, members, workers, format, store, debounce, level]

/-- What a group of rules asks for. -/
def Holds (s : Settings) : Rule → Prop
  | mode => ∃ m : OutputMode, s.mode.lower = m.name
  | members => ∃ m : MemberMode, s.members.lower ∈ m.spellings
  | workers => 0 ≤ s.workers.toInt
  | format => ∃ f : Format, s.manifest.format.lower ∈ f.spellings
  | store => s.manifest.store = "file" ∨ s.manifest.store = "sqlite" ∧ s.manifest.database ≠ []
  | debounce => 0 ≤ s.debounce.nanoseconds.toInt
  | level => ∃ v : Severity, s.level = v.name

/-- The entry of a group in a report. -/
def complaint (s : Settings) : Rule → Violation
  | mode => .mode s.mode
  | members => .members s.members
  | workers => .workers s.workers
  | format => .format s.manifest.format
  | store => if s.manifest.store = "sqlite" then .noDatabase else .store s.manifest.store
  | debounce => .debounce s.debounce
  | level => .level s.level

variable (s : Settings)

/-- Whether the check of a group is passed. -/
def passes : Rule → Bool
  | mode => modeWords.contains s.mode.lower
  | members => memberWords.contains s.members.lower
  | workers => 0 ≤ s.workers
  | format => formatWords.contains s.manifest.format.lower
  | store =>
    s.manifest.store = "file" || s.manifest.store = "sqlite" && !s.manifest.database.isEmpty
  | debounce => !s.debounce.isNegative
  | level => levelWords.contains s.level

lemma passes_iff (r : Rule) : r.passes s = true ↔ r.Holds s := by
  cases r with
  | mode => exact List.contains_iff_mem.trans mem_modeWords
  | members => exact List.contains_iff_mem.trans mem_memberWords
  | workers => exact decide_eq_true_iff.trans Int64.le_iff_toInt_le
  | format => exact List.contains_iff_mem.trans mem_formatWords
  | store => simp [passes, Holds]
  | debounce =>
    have hnegative : s.debounce.isNegative = true ↔ s.debounce.nanoseconds.toInt < 0 :=
      decide_eq_true_iff.trans Int64.lt_iff_toInt_lt
    rw [passes, Bool.not_eq_true', Bool.eq_false_iff, ne_eq, hnegative, Int.not_lt, Holds]
  | level => exact List.contains_iff_mem.trans mem_levelWords

instance decidableHolds (r : Rule) : Decidable (r.Holds s) := decidable_of_iff _ (passes_iff s r)

end Rule

end Settings

end SheetFormula
