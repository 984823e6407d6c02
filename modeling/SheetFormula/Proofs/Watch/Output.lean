import SheetFormula.Proofs.CommandLine.Writing
import SheetFormula.Proofs.Watch.Debouncing

/-!
# Output is not watched for

What the program writes for a unit has the name of the unit with an ending of its own, and such
names are never those of units. So events on output start no timer, however the path in the event is
spelled, and building a unit again does not lead to another build.
-/

namespace SheetFormula

open SheetFormula.Path Session

/-! ### Names of output -/

/-- The last name in the path of a unit's file. -/
lemma base_artifactPath {suffix : Text} (hsuffix : Ending suffix) (outDir unit : Text) :
    base (artifactPath outDir unit suffix) = lastPart (stem unit) ++ suffix := by
  have hne : suffix ≠ [] := (hsuffix.proper []).1
  by_cases hdir : outDir = []
  · rw [artifactPath, if_pos (by simpa using hdir), base_append hsuffix.noSlash hne]
  · have hlast := lastPart_clean hdir (hsuffix.proper (lastPart (stem unit)))
      (slash_not_mem_name hsuffix unit)
    rw [artifactPath_of_ne_nil hsuffix outDir unit hdir, base_of_lastPart, hlast]
    rw [hlast]
    exact (hsuffix.proper _).1

/-- The path of a file that is written for a unit: its artifact in one of the modes, or its manifest
in one of the formats. -/
inductive OutputPath (outDir unit : Text) : Text → Prop
  | artifact (mode : OutputMode) : OutputPath outDir unit (artifactPath outDir unit mode.suffix)
  | manifest (format : Format) : OutputPath outDir unit (FileStore.path ⟨format, outDir⟩ unit)

lemma OutputPath.isUnit_eq_false {outDir unit p : Text} (h : OutputPath outDir unit p) :
    isUnit p = false := by
  cases h with
  | artifact mode =>
    rw [isUnit_eq, base_artifactPath mode.ending]
    exact mode.isUnitName_append_suffix _
  | manifest format =>
    change isUnit (artifactPath outDir unit format.suffix) = false
    rw [isUnit_eq, base_artifactPath format.ending]
    exact format.isUnitName_append_suffix _

/-- No path that leads to the output of a unit is that of a unit. -/
lemma Job.isUnit_of_mem_outputs {job : Job} {here : Location} {u p : Text}
    (h : resolve here p ∈ job.outputs here u) : isUnit p = false := by
  by_contra hunit
  rw [Bool.not_eq_false] at hunit
  exact not_noUnit_resolve hunit here (noUnit_of_mem_outputs h)

/-! ### Events on output -/

namespace Watcher

variable {w : Watcher} {t : FileTree} {p : Text} {changes : List Change}

/-- An event on a path that is not that of a unit starts no timer; on a path without a directory it
does nothing at all. -/
lemma handle_of_not_unit (h : isUnit p = false) :
    (w.handle t isUnit p changes).pending = w.pending ∧
      (w.handle t isUnit p changes).queue = w.queue ∧
      (t.find p ≠ .ok .directory → w.handle t isUnit p changes = w) := by
  have hnever : (Notice.event t p changes).starts isUnit p = false := by simp [Notice.starts, h]
  rcases handle_cases w isUnit t p changes with ⟨hstarts, -⟩ | ⟨-, hpending, hqueue⟩
  · rw [hnever] at hstarts
    cases hstarts
  · refine ⟨hpending, hqueue, fun hfile => ?_⟩
    simp [handle, finds_directory, hfile, h]

/-- An event on output: on a path that leads to a place where output goes, or on a directory that
has been made. -/
def Notice.OnOutput (here : Location) (places : List Location) : Notice → Prop
  | event tree path changes =>
    resolve here path ∈ places ∨ Change.create ∈ changes ∧ tree.find path = .ok .directory
  | expiry _ | stop => False

/-- A notice of output leaves all timers and delivers nothing. -/
lemma take_of_onOutput {job : Job} {here : Location} {u : Text} {n : Notice}
    (h : n.OnOutput here (job.outputs here u)) :
    (w.take isUnit n).pending = w.pending ∧ (w.take isUnit n).queue = w.queue := by
  cases n with
  | event tree path changes =>
    have hnever : (Notice.event tree path changes).starts isUnit path = false := by
      rcases h with hplace | ⟨hcreate, hmade⟩
      · simp [Notice.starts, Job.isUnit_of_mem_outputs hplace]
      · simp [Notice.starts, hcreate, hmade]
    rcases handle_cases w isUnit tree path changes with ⟨hstarts, -⟩ | ⟨-, htimers⟩
    · rw [hnever] at hstarts
      cases hstarts
    · exact htimers
  | expiry path => exact h.elim
  | stop => exact h.elim

lemma takeAll_of_onOutput {job : Job} {here : Location} {u : Text} {notices : List Notice}
    (h : ∀ n ∈ notices, n.OnOutput here (job.outputs here u)) :
    (w.takeAll isUnit notices).pending = w.pending ∧
      (w.takeAll isUnit notices).queue = w.queue := by
  induction notices generalizing w with
  | nil => exact ⟨rfl, rfl⟩
  | cons n rest ih =>
    obtain ⟨hn, hrest⟩ := List.forall_mem_cons.mp h
    obtain ⟨hpending, hqueue⟩ := ih (w := w.take isUnit n) hrest
    obtain ⟨hpending', hqueue'⟩ := take_of_onOutput (w := w) hn
    exact ⟨hpending.trans hpending', hqueue.trans hqueue'⟩

end Watcher

/-! ### Building a unit again -/

namespace Session

variable {s : Session} {job : Job} {emit : Emit} {u : Text}

/-- A file that is compiled alone is logged and then settled, unless the run has been
interrupted. -/
lemma compileFiles_singleton (s : Session) (job : Job) (emit : Emit) (u : Text) :
    (s.compileFiles job emit [u]).1 = s ∨
      ∃ l, (s.compileFiles job emit [u]).1 =
        (settle job emit (s.log job l, []) u (s.tree.compileFile job.options u)).1 := by
  by_cases hcanceled : s.isCanceled job = true
  · left
    simp [compileFiles, Batch.run, collecting, hcanceled]
  · right
    refine ⟨Batch.progress job.options.mode u (s.tree.compileFile job.options u), ?_⟩
    simp [compileFiles, Batch.run, collecting, hcanceled, settleFrom]

/-- What holds of files and store, and is kept when the output of a file is emitted, is kept when
this file alone is compiled. -/
lemma compileFiles_invariant {P : FileTree → Option Store → Prop} (hstart : P s.tree s.store)
    (hemit : ∀ o, s.tree.compileFile job.options u = .ok o → ∀ s₁ : Session,
      P s₁.tree s₁.store → P (emit s₁ u o).1.tree (emit s₁ u o).1.store) :
    P (s.compileFiles job emit [u]).1.tree (s.compileFiles job emit [u]).1.store := by
  have htally : ∀ (s₁ : Session) failure, P s₁.tree s₁.store →
      P (tally job u s₁ failure []).1.tree (tally job u s₁ failure []).1.store := by
    intro s₁ failure h
    rcases failure with _ | (_ | _) <;> exact h
  rcases s.compileFiles_singleton job emit u with hsame | ⟨l, hsettled⟩
  · rw [hsame]
    exact hstart
  · have hlogged : P (s.log job l).tree (s.log job l).store := hstart
    rw [hsettled]
    cases hresult : s.tree.compileFile job.options u with
    | error f => exact htally _ (some f) hlogged
    | ok o => exact htally _ _ (hemit o hresult _ hlogged)

lemma tree_rebuild (s : Session) (job : Job) (u : Text) :
    (s.rebuild job u).tree =
      ((s.log job ⟨.info, "changed: " ++ u⟩).compileFiles job (emitOutput job) [u]).1.tree := by
  rw [rebuild]
  split
  · rename_i heq
    rw [heq]
  · rename_i heq
    rw [heq]
    rfl

/-- Building a unit again makes directories on the way to its output, and writes its output. -/
lemma grows_rebuild (hfiles : job.FilesOnly) (hstore : s.store = job.manifestFiles?.map .files) :
    s.tree.Grows (job.wayTo s.tree.here u) (job.outputs s.tree.here u) (s.rebuild job u).tree := by
  have hstart : InBuild job s.tree [u] s.tree s.store := by
    refine ⟨.refl, fun x hx => ?_⟩
    rw [hstore, Option.map_eq_some_iff] at hx
    obtain ⟨y, hy, rfl⟩ := hx
    exact hy
  have hbuilt : ∀ l, InBuild job s.tree [u]
      ((s.log job l).compileFiles job (emitOutput job) [u]).1.tree
      ((s.log job l).compileFiles job (emitOutput job) [u]).1.store := by
    intro l
    refine compileFiles_invariant hstart fun o ho s₁ h => ?_
    rw [emitOutput]
    split_ifs with hprint
    · exact h
    · rw [Bool.or_eq_true, not_or, decide_eq_true_iff] at hprint
      exact h.writeOutput (Job.mem_compiled.mpr ⟨List.mem_singleton_self u, hprint.2, o, ho⟩)
        (mode_of_compileFile ho)
  have honly : ∀ f : Text → List Location, (job.compiled s.tree [u]).flatMap f ⊆ f u := by
    intro f l hl
    obtain ⟨v, hv, hl⟩ := List.mem_flatMap.mp hl
    rwa [← List.mem_singleton.mp (Job.mem_compiled.mp hv).1]
  rw [tree_rebuild]
  refine (hbuilt _).grows.mono (honly _) ?_
  rw [Job.targets, hfiles.database_eq_none]
  exact honly _

end Session

/-- Output never triggers a build. Whatever the unit, the directory for output, the mode and the
format, neither the path of the artifact nor that of the manifest file is that of a unit. An event
on such a path starts no timer and delivers nothing, and does nothing at all unless there is a
directory. So when a unit is built again, with manifests in files or without them, all files that
are written are in places where no event starts a timer, however its path is spelled. -/
theorem output_never_triggers :
    (∀ outDir unit p, OutputPath outDir unit p → isUnit p = false ∧
      ∀ (w : Watcher) (t : FileTree) (changes : List Change),
        (w.handle t isUnit p changes).pending = w.pending ∧
        (w.handle t isUnit p changes).queue = w.queue ∧
        (t.find p ≠ .ok .directory → w.handle t isUnit p changes = w)) ∧
    ∀ (s : Session) (job : Job) (u : Text), job.FilesOnly →
      s.store = job.manifestFiles?.map .files →
        s.tree.Grows (job.wayTo s.tree.here u) (job.outputs s.tree.here u) (s.rebuild job u).tree ∧
        ∀ (w : Watcher) (notices : List Watcher.Notice),
          (∀ n ∈ notices, n.OnOutput s.tree.here (job.outputs s.tree.here u)) →
            (w.takeAll isUnit notices).pending = w.pending ∧
            (w.takeAll isUnit notices).queue = w.queue := by
  refine ⟨fun outDir unit p hp => ?_, fun s job u hfiles hstore => ?_⟩
  · have hunit := hp.isUnit_eq_false
    exact ⟨hunit, fun w t changes => Watcher.handle_of_not_unit hunit⟩
  · exact ⟨grows_rebuild hfiles hstore, fun w notices => Watcher.takeAll_of_onOutput⟩

/-- Events on the artifact and on the manifest of a unit, the second one in an unusual spelling. -/
def outputNotices (t : FileTree) : List Watcher.Notice :=
  [.event t "a.formula" [.create, .write], .event t ".//a.exports.json" [.write]]

theorem rebuilt_unit_triggers_nothing :
    let after := (staleSession.rebuild plainJob "a.json").tree
    after.get? ["a.formula"] = some (.file "=1\n") ∧
      (Watcher.takeAll isUnit { pending := ["b.json"] } (outputNotices after)).pending =
        ["b.json"] ∧
      isUnit "dist/A.Json.formulas.json" = false := by
  intro after
  have hwritten : after.get? ["a.formula"] = some (.file "=1\n") := by decide +kernel
  obtain ⟨hpaths, hrebuild⟩ := output_never_triggers
  have hplaces : plainJob.outputs staleSession.tree.here "a.json" =
      ([["a.formula"], ["a.exports.json"]] : List (List Text)) := by decide
  obtain ⟨-, hevents⟩ := hrebuild staleSession plainJob "a.json" (.inr rfl) rfl
  have hnotices : ∀ n ∈ outputNotices after,
      n.OnOutput staleSession.tree.here (plainJob.outputs staleSession.tree.here "a.json") := by
    rw [hplaces, outputNotices, List.forall_mem_cons, List.forall_mem_singleton]
    exact ⟨.inl (by decide), .inl (by decide)⟩
  have hpath := hpaths "dist" "src/A.Json.json" _ (.artifact .unpacked)
  exact ⟨hwritten, (hevents { pending := ["b.json"] } _ hnotices).1, hpath.1⟩

end SheetFormula
