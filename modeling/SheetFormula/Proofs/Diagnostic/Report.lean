import SheetFormula.Diagnostic.Report
import SheetFormula.Proofs.CommandLine.Reporting
import SheetFormula.Proofs.Json.Safe

/-!
# Reports that are read back

A report in JSON is a single line with nothing in it that a web page would take for markup, and it
is read as an object with all that is known of the failure. In a run that reports in JSON, each unit
that fails with a diagnostic adds one line to the channel for errors.
-/

namespace SheetFormula

/-! ### Values in reports -/

namespace Json

/-- A text stands for a value in a report: it spells the value harmlessly, and the value is not
nested deeper than `k`. -/
structure Reports (k : Nat) (t : Text) (v : Value) : Prop where
  spells : Spells t v
  harmless : Harmless t
  depth : v.depth ≤ k

/-- A name and a text stand for a member in a report. -/
inductive ReportsMember (k : Nat) : Text × Text → Name × Value → Prop
  | intro {name t : Text} {v : Value} (value : Reports k t v) :
    ReportsMember k (name, t) (.text name.repaired, v)

lemma depthAll_le {k : Nat} {ts : List Text} {vs : List Value}
    (h : List.Forall₂ (Reports k) ts vs) : Value.depthAll vs ≤ k := by
  induction h with
  | nil => exact Nat.zero_le k
  | cons hv _ ih => exact Nat.max_le.mpr ⟨hv.depth, ih⟩

lemma depthMembers_le {k : Nat} {ms : List (Text × Text)} {vs : List (Name × Value)}
    (h : List.Forall₂ (ReportsMember k) ms vs) : Value.depthMembers vs ≤ k := by
  induction h with
  | nil => exact Nat.zero_le k
  | cons hm _ ih =>
    obtain ⟨hv⟩ := hm
    exact Nat.max_le.mpr ⟨hv.depth, ih⟩

namespace Reports

variable {k : Nat}

lemma string (t : Text) : Reports k (safe t) (.string t.repaired) :=
  ⟨.string (quotes_safe t), harmless_safe t, Nat.zero_le k⟩

lemma integer (n : Int) : Reports k (Text.ofInt n) (.number (Text.ofInt n)) :=
  ⟨.number (fun _ => isNumberByte_of_mem_ofInt) (isNumber_ofInt n), harmless_ofInt n,
    Nat.zero_le k⟩

lemma array {ts : List Text} {vs : List Value} (h : List.Forall₂ (Reports k) ts vs) :
    Reports (k + 1) ("[" ++ Text.join "," ts ++ "]") (.array vs) := by
  have hopen : Harmless "[" := harmless_of_bytes rfl
  have hclose : Harmless "]" := harmless_of_bytes rfl
  have hitems : ∀ t ∈ ts, Harmless t :=
    ((List.forall₂_and_left _ _).mp (h.imp fun _ _ hv => ⟨hv.harmless, hv⟩)).1
  exact ⟨.array (h.imp fun _ _ hv => hv.spells), (hopen.append (.join hitems)).append hclose,
    Nat.succ_le_succ (depthAll_le h)⟩

lemma object (ms : List (Text × Text)) {vs : List (Name × Value)}
    (h : List.Forall₂ (ReportsMember k) ms vs) :
    Reports (k + 1) ("\x7b" ++ Text.join "," (ms.map fun m => safeMember m.1 m.2) ++ "\x7d")
      (.object vs) := by
  have hopen : Harmless "\x7b" := harmless_of_bytes rfl
  have hclose : Harmless "\x7d" := harmless_of_bytes rfl
  have hcolon : Harmless ":" := harmless_of_bytes rfl
  have hmember : ∀ m v, ReportsMember k m v →
      Harmless (safeMember m.1 m.2) ∧ SpellsMember (safeMember m.1 m.2) v := by
    rintro _ _ ⟨hv⟩
    exact ⟨((harmless_safe _).append hcolon).append hv.harmless, .intro (quotes_safe _) hv.spells⟩
  have hmembers := (List.forall₂_and_left _ _).mp
    (List.forall₂_map_left_iff.mpr (h.imp hmember))
  exact ⟨.object hmembers.2, (hopen.append (.join hmembers.1)).append hclose,
    Nat.succ_le_succ (depthMembers_le h)⟩

end Reports

end Json

open Json (Reports ReportsMember)

/-- What a value in a report is read as. -/
def Datum.value : Datum → Json.Value
  | .text t => .string t.repaired
  | .int n => .number (Text.ofInt n)
  | .bool b => .bool b
  | .null => .null

lemma Datum.reports (x : Datum) (k : Nat) : Reports k x.json x.value := by
  cases x with
  | text t => exact .string t
  | int n => exact .integer n
  | bool b =>
    cases b with
    | true => exact ⟨.bool true, Json.harmless_of_bytes rfl, Nat.zero_le k⟩
    | false => exact ⟨.bool false, Json.harmless_of_bytes rfl, Nat.zero_le k⟩
  | null => exact ⟨.null, Json.harmless_of_bytes rfl, Nat.zero_le k⟩

def Data.value (data : Data) : Json.Value :=
  .object ((data.mergeSort fun a b => Text.le a.1 b.1).map fun m => (.text m.1.repaired, m.2.value))

lemma Data.reports (data : Data) (k : Nat) : Reports (k + 1) data.json data.value := by
  have hmembers : List.Forall₂ (ReportsMember k)
      ((data.mergeSort fun a b => Text.le a.1 b.1).map fun m => (m.1, m.2.json))
      ((data.mergeSort fun a b => Text.le a.1 b.1).map fun m =>
        (.text m.1.repaired, m.2.value)) := by
    rw [List.forall₂_map_left_iff, List.forall₂_map_right_iff, List.forall₂_same]
    exact fun m _ => .intro (m.2.reports k)
  have hobject := Reports.object _ hmembers
  rw [List.map_map] at hobject
  exact hobject

namespace Diagnostic

/-- A member that a report is read with only under a condition. -/
def given (c : Bool) (name : Text) (v : Json.Value) : List (Json.Name × Json.Value) :=
  if c then [(.text name, v)] else []

/-- What a report is read as. -/
def value (d : Diagnostic) : Json.Value :=
  .object
    (given true "class" (.string d.cls.name)
      ++ given true "code" (.string d.code.repaired)
      ++ given true "message" (.string d.message.repaired)
      ++ given (!d.hints.isEmpty) "hints" (.array (d.hints.map fun hint => .string hint.repaired))
      ++ given (!d.kind.isEmpty) "kind" (.string d.kind.repaired)
      ++ given true "line" (.number (Text.ofInt d.line.toInt))
      ++ given true "column" (.number (Text.ofInt d.column.toInt))
      ++ given (!d.file.isEmpty) "file" (.string d.file.repaired)
      ++ given (!d.data.isEmpty) "data" d.data.value)

lemma reports_present {k : Nat} {c : Bool} {name t : Text} {v : Json.Value}
    (hname : name.isUtf8 = true) (h : Reports k t v) :
    List.Forall₂ (ReportsMember k) (present c name t) (given c name v) := by
  have hmember : ReportsMember k (name, t) (.text name, v) := by
    have hrepaired : ReportsMember k (name, t) (.text name.repaired, v) := .intro h
    rwa [Text.repaired_of_isUtf8 hname] at hrepaired
  cases c with
  | false => exact .nil
  | true => exact .cons hmember .nil

lemma reports (d : Diagnostic) : Reports 2 d.json d.value := by
  have hclass : Reports 1 (Json.safe d.cls.name) (.string d.cls.name) := by
    have hname : d.cls.name.isUtf8 = true := by
      cases d.cls <;> rfl
    have hstring := Reports.string (k := 1) d.cls.name
    rwa [Text.repaired_of_isUtf8 hname] at hstring
  have hhints : Reports 1 ("[" ++ Text.join "," (d.hints.map Json.safe) ++ "]")
      (.array (d.hints.map fun hint => .string hint.repaired)) := by
    refine .array ?_
    rw [List.forall₂_map_left_iff, List.forall₂_map_right_iff, List.forall₂_same]
    exact fun hint _ => .string hint
  refine Reports.object d.members ?_
  -- The members are taken off from the last one backwards.
  refine List.rel_append ?_ (reports_present rfl (d.data.reports 0))
  refine List.rel_append ?_ (reports_present rfl (.string _))
  refine List.rel_append ?_ (reports_present rfl (.integer _))
  refine List.rel_append ?_ (reports_present rfl (.integer _))
  refine List.rel_append ?_ (reports_present rfl (.string _))
  refine List.rel_append ?_ (reports_present rfl hhints)
  refine List.rel_append ?_ (reports_present rfl (.string _))
  refine List.rel_append ?_ (reports_present rfl (.string _))
  exact reports_present rfl hclass

end Diagnostic

/-! ### Lines on the channel for errors -/

/-- What is reported about an input: something if it fails. -/
def Handling.complaint (json : Bool) (x : Handling) : Text :=
  (x.failure?.map (·.complaint json)).getD []

namespace Session

variable {job : Job} {emit : Emit} {s after : Session} {inputs : List Text} {source : Source}
  {x : Handling} {hs : List Handling}

/-- Emitting output says nothing on the channel for errors. -/
def Silent (emit : Emit) : Prop := ∀ s path o, (emit s path o).1.console.err = s.console.err

/-- Messages of little weight do not go to the channel for errors. -/
lemma err_log {l : LogLine} (h : l.severity.isGrave = false) (s : Session) (job : Job) :
    (s.log job l).console.err = s.console.err := by
  simp only [log, Console.log, h, Bool.false_eq_true, if_false]
  split_ifs <;> rfl

lemma err_foldl_log {lines : Log} (h : ∀ l ∈ lines, l.severity = .debug) (s : Session) (job : Job) :
    (lines.foldl (fun s l => s.log job l) s).console.err = s.console.err := by
  induction lines generalizing s with
  | nil => rfl
  | cons l rest ih =>
    obtain ⟨hl, hrest⟩ := List.forall_mem_cons.mp h
    rw [List.foldl_cons, ih hrest]
    exact err_log (by rw [hl]; rfl) s job

lemma silent_emitVerdict : Silent emitVerdict := fun _ _ _ => rfl

lemma err_saveManifest (s : Session) (job : Job) (path : Text) (manifest : Entries) :
    (s.saveManifest job path manifest).1.console.err = s.console.err := by
  rw [saveManifest]
  cases s.store with
  | none => rfl
  | some store =>
    dsimp only
    split
    · rfl
    · exact err_log rfl _ job

lemma silent_emitOutput (job : Job) : Silent (emitOutput job) := by
  intro s path o
  rw [emitOutput]
  split_ifs
  · rfl
  · rw [writeOutput]
    dsimp only
    split
    · rfl
    · split
      · rfl
      · exact (err_saveManifest _ job path _).trans (err_log rfl _ job)

lemma Handles.err (hsilent : Silent emit) (h : Handles job emit s x after) :
    after.console.err = s.console.err ++ x.complaint job.json := by
  cases h with
  | @rejected path f =>
    rw [report_eq]
    rfl
  | @emitted s' path o answer hemit =>
    have herr : s'.console.err = s.console.err := by
      rw [← hsilent s path o, hemit]
    cases answer with
    | none => exact herr.trans (List.append_nil _).symm
    | some f =>
      change (s'.report job (.failure f)).console.err = _
      rw [report_eq, ← herr]
      rfl

lemma HandlesAll.err (hsilent : Silent emit)
    (hsource : ∀ s p, (source s p).1.console = s.console)
    (h : HandlesAll job emit source s hs after) :
    after.console.err = s.console.err ++ hs.flatMap (Handling.complaint job.json) := by
  induction h with
  | nil s => exact (List.append_nil _).symm
  | @cons s s₁ s₂ s₃ x rest hfrom hfirst _ ih =>
    have hconsole := hsource s x.path
    rw [hfrom] at hconsole
    rw [ih, hfirst.err hsilent, hconsole, List.flatMap_cons, List.append_assoc]

/-- Nothing but the reports on failed inputs goes to the channel for errors. -/
lemma Account.err (a : Account job emit s inputs after) (hsilent : Silent emit) :
    after.console.err = s.console.err ++ a.handlings.flatMap (Handling.complaint job.json) := by
  rw [a.second.err hsilent fun _ _ => rfl, err_foldl_log a.severity_lines,
    a.first.err hsilent fun _ _ => rfl, handlings, List.flatMap_append, List.append_assoc]

end Session

lemma Diagnostic.count_json (d : Diagnostic) : d.json.count ('\n' : UInt8) = 0 := by
  refine List.count_eq_zero.mpr fun hmem => ?_
  exact absurd (d.reports.harmless.bytes _ hmem).1 (by decide)

/-- Inputs that fail with diagnostics are reported on one line each. -/
lemma Handling.count_complaint {hs : List Handling}
    (h : ∀ x ∈ hs, ∀ f, x.failure? = some f → ∃ d, f = .diagnostic d) :
    (hs.flatMap (complaint true)).count ('\n' : UInt8) = hs.countP failed := by
  induction hs with
  | nil => rfl
  | cons x rest ih =>
    obtain ⟨hx, hrest⟩ := List.forall_mem_cons.mp h
    rw [List.flatMap_cons, List.count_append, ih hrest, List.countP_cons, complaint, failed]
    cases hfailure : x.failure? with
    | none => exact Nat.add_comm _ _
    | some f =>
      obtain ⟨d, rfl⟩ := hx f hfailure
      have hline : ((UnitFailure.diagnostic d).complaint true).count ('\n' : UInt8) = 1 := by
        change (d.json ++ "\n").count ('\n' : UInt8) = 1
        rw [List.count_append, d.count_json]
        rfl
      change ((UnitFailure.diagnostic d).complaint true).count ('\n' : UInt8) + _ = _
      rw [hline]
      exact Nat.add_comm _ _

open Session

/-- Reports in JSON are single lines that carry the whole diagnostic. A report has no control
characters, no characters of markup and no separators of lines or paragraphs, and it is read as an
object with all that is known. Texts are repaired, which changes none that is UTF-8, and numbers are
those of 64 bits that were written. In a run that reports in JSON, nothing but reports goes to the
channel for errors, so each input that fails with a diagnostic adds one line there. -/
theorem reports_are_single_lines :
    (∀ d : Diagnostic,
      (∀ b ∈ d.json, 0x20 ≤ b ∧ b ≠ '<' ∧ b ≠ '>' ∧ b ≠ '&') ∧
      (∀ c ∈ ['\u2028', '\u2029'], ¬ String.utf8EncodeChar c <:+: d.json) ∧
      Json.document? d.json = some d.value ∧
      ∀ (s : Session) (job : Job), job.json = true →
        (s.report job (.diagnostic d)).console =
          ⟨s.console.out, s.console.err ++ (d.json ++ "\n")⟩) ∧
    (∀ t : Text, t.isUtf8 = true → t.repaired = t) ∧
    (∀ i : Int64, Json.int64? (Text.ofInt i.toInt) = some i) ∧
    Silent emitVerdict ∧ (∀ job, Silent (emitOutput job)) ∧
    ∀ (s after : Session) (job : Job) (emit : Emit) (inputs : List Text) (workers : Nat)
      (failure : Option Failure), job.json = true → Silent emit →
      s.MayEnd job emit inputs workers (after, failure) →
      (failure = some .canceled ∧ ∃ out, job.interrupted out = true) ∨
      ∃ a : Account job emit s inputs after,
        after.console.err = s.console.err ++ a.handlings.flatMap (Handling.complaint true) ∧
        ((∀ x ∈ a.handlings, ∀ f, x.failure? = some f → ∃ d, f = .diagnostic d) →
          after.console.err.count ('\n' : UInt8) =
            s.console.err.count ('\n' : UInt8) + a.handlings.countP Handling.failed) := by
  refine ⟨fun d => ⟨d.reports.harmless.bytes, ?_, ?_, ?_⟩, fun t => Text.repaired_of_isUtf8,
    Json.int64_ofInt, silent_emitVerdict, silent_emitOutput, ?_⟩
  · intro c hc
    refine d.reports.harmless.not_infix ?_
    simp only [List.mem_cons, List.not_mem_nil, or_false] at hc
    rcases hc with rfl | rfl <;> rfl
  · exact d.reports.spells.document (Nat.le_trans d.reports.depth (by decide))
  · intro s job hjson
    rw [report_eq, hjson]
    rfl
  · intro s after job emit inputs workers failure hjson hsilent hend
    rcases account_of_mayEnd hend with hcanceled | ⟨a, -⟩
    · exact .inl hcanceled
    · have herr := a.err hsilent
      rw [hjson] at herr
      refine .inr ⟨a, herr, fun hall => ?_⟩
      rw [herr, List.count_append, Handling.count_complaint hall]

def jsonJob : Job := { plainJob with json := true }

/-- A diagnostic with markup, a stray byte and the end of a line in its message, and with two
values. -/
def awkwardDiagnostic : Diagnostic :=
  { cls := .tree, code := "TREE-0001", message := ['<', 0xFF, '\n'], line := 3, column := 1
    data := [("a", .null), ("b", .int (-4))] }

/-- The diagnostic of a unit without a tree. -/
def untypedDiagnostic : Diagnostic := (Fault.badTree .untypedNode).report.inFile "b.json"

/-- The awkward diagnostic is read back with the stray byte replaced, and a check of a broken unit
adds one line for its one failure. -/
theorem awkward_diagnostic_read_back :
    Json.document? awkwardDiagnostic.json =
      some (.object [(.text "class", .string "tree"), (.text "code", .string "TREE-0001"),
        (.text "message", .string "<\uFFFD\n"), (.text "line", .number "3"),
        (.text "column", .number "1"),
        (.text "data", .object [(.text "a", .null), (.text "b", .number "-4")])]) ∧
    ∃ after failure, twoSources.MayEnd jsonJob emitVerdict ["b.json"] 1 (after, failure) ∧
      after.console.err = untypedDiagnostic.json ++ "\n" ∧
      ∃ a : Account jsonJob emitVerdict twoSources ["b.json"] after,
        after.console.err.count ('\n' : UInt8) = a.handlings.countP Handling.failed := by
  obtain ⟨hreport, -, -, hsilent, -, hrun⟩ := reports_are_single_lines
  constructor
  · have hsorted : awkwardDiagnostic.data.Pairwise fun a b => Text.le a.1 b.1 := by decide
    have hdata : awkwardDiagnostic.data.value =
        .object [(.text "a", .null), (.text "b", .number "-4")] := by
      rw [Data.value, List.mergeSort_of_pairwise hsorted]
      rfl
    refine (hreport awkwardDiagnostic).2.2.1.trans ?_
    rw [Diagnostic.value, hdata]
    rfl
  · have hend := twoSources.mayEnd_compileInputs jsonJob emitVerdict ["b.json"] Nat.one_pos
    have hfile : twoSources.resultOf jsonJob "b.json" = .error (.diagnostic untypedDiagnostic) := by
      decide +kernel
    have herr : (twoSources.compileInputs jsonJob emitVerdict ["b.json"]).1.console.err =
        untypedDiagnostic.json ++ "\n" := by
      rfl
    rcases hend' : twoSources.compileInputs jsonJob emitVerdict ["b.json"] with ⟨after, failure⟩
    rw [hend'] at hend herr
    refine ⟨after, failure, hend, herr, ?_⟩
    rcases hrun _ _ _ _ _ _ _ rfl hsilent hend with ⟨-, out, hout⟩ | ⟨a, -, hcount⟩
    · cases hout
    · refine ⟨a, (hcount fun x hx f hf => ?_).trans (Nat.zero_add _)⟩
      have hprints : Prints emitVerdict Command.check.shown := fun _ _ _ => rfl
      have htree : a.mid.tree = twoSources.tree :=
        (a.first.console hprints fun _ _ => ⟨rfl, rfl⟩).1
      have hpath : x.path = "b.json" := by
        have hmem : x.path ∈ a.handlings.map Handling.path := List.mem_map_of_mem hx
        rw [a.paths] at hmem
        exact List.mem_singleton.mp hmem
      have hresult := a.result_of_mem htree (by decide) x hx
      rw [hpath, hfile] at hresult
      cases x with
      | rejected path f' =>
        cases hresult
        cases hf
        exact ⟨_, rfl⟩
      | emitted path o answer => cases hresult

end SheetFormula
