import SheetFormula.Proofs.CommandLine.Finding
import SheetFormula.Proofs.CommandLine.Timing

/-!
# Builds in step

Two builds of the same inputs, one on a tree and one on what a build has made of it, take the same
steps: they print the same and fail in the same places, and change their trees together.
-/

namespace SheetFormula

open SheetFormula.Path Session

/-! ### Sessions in step -/

/-- Two sessions in the course of builds that started on two trees: what has been printed and read
is the same, and so is what has been changed. The second tree comes from the first by a build. -/
structure InStep (job : Job) (inputs : List Text) (t t' : FileTree) (s s' : Session) : Prop where
  console : s'.console = s.console
  input : s'.input = s.input
  store : s'.store = s.store
  noTables : s.NoTables
  first : InBuild job t inputs s.tree s.store
  second : InBuild job t inputs s'.tree s'.store
  together : FileTree.ChangeTogether t t' s.tree s'.tree

/-- What two builds need to stay in step: the tree is sound, and no output goes to a database. -/
structure Steps (job : Job) (t : FileTree) : Prop where
  sound : t.Sound
  noDatabase : job.database? t = none

namespace InStep

variable {job : Job} {inputs : List Text} {t t' : FileTree} {s s' : Session} {u : Text}
  {o : Output}

/-- Stores of files are opened alike in a tree and in what a build makes of it. -/
lemma start {opened : Session} (hstore : s.store = none) (hfiles : job.FilesOnly)
    (hopen : s.openStore job = .ok opened)
    (hgrows : s.tree.Grows (job.directories s.tree inputs) (job.targets s.tree inputs) t') :
    InStep job inputs s.tree t' opened { opened with tree := t' } := by
  obtain ⟨htables, htree, -⟩ := openStore_files hstore hfiles hopen
  have hfits : ∀ (u : FileTree) x, opened.store = some x → x.Fits job s.tree u := by
    intro u x hx
    have hopened := (inBuild_openStore hstore hopen inputs).1.fits x hx
    cases x with
    | files x => exact hopened
    | tables x => exact absurd hx (htables x)
  exact
    { console := rfl
      input := rfl
      store := rfl
      noTables := htables
      first := ⟨htree ▸ .refl, hfits _⟩
      second := ⟨hgrows, hfits _⟩
      together := htree ▸ .refl _ _ }

/-- Both sessions print the same. -/
lemma mapConsole (h : InStep job inputs t t' s s') (f : Console → Console) :
    InStep job inputs t t' { s with console := f s.console }
      { s' with console := f s'.console } :=
  ⟨congrArg f h.console, h.input, h.store, h.noTables, h.first, h.second, h.together⟩

lemma log (h : InStep job inputs t t' s s') (l : LogLine) :
    InStep job inputs t t' (s.log job l) (s'.log job l) :=
  h.mapConsole fun c => c.log job.threshold l

lemma report (h : InStep job inputs t t' s s') (f : UnitFailure) :
    InStep job inputs t t' (s.report job f) (s'.report job f) := by
  rw [report_eq, report_eq]
  exact h.mapConsole fun c => c.warn (f.complaint job.json)

/-- Both trees change together. -/
lemma step {a a' : FileTree} (h : InStep job inputs t t' s s')
    (hfirst : InBuild job t inputs a s.store) (hsecond : InBuild job t inputs a' s'.store)
    (htogether : FileTree.ChangeTogether s.tree s'.tree a a') :
    InStep job inputs t t' { s with tree := a } { s' with tree := a' } :=
  ⟨h.console, h.input, h.store, h.noTables, hfirst, hsecond, h.together.trans htogether⟩

lemma isCanceled (h : InStep job inputs t t' s s') : s'.isCanceled job = s.isCanceled job := by
  rw [Session.isCanceled, Session.isCanceled, h.console]

end InStep

/-- A manifest is saved in two trees that have grown from one, with the same result. -/
lemma FileStore.save_together {made written : List Location} {start t t' : FileTree}
    {x : FileStore} {unit : Text} (hp : start.Receives made written (x.path unit))
    (h : start.Grows made written t) (h' : start.Grows made written t') (manifest : Entries) :
    (x.save t' unit manifest).2 = (x.save t unit manifest).2 ∧
      FileTree.ChangeTogether t t' (x.save t unit manifest).1 (x.save t' unit manifest).1 := by
  rw [save, save]
  cases manifest.encode x.format with
  | error e => exact ⟨rfl, .refl t t'⟩
  | ok content =>
    -- The directories are made in both trees, whether or not the file can be written.
    obtain ⟨t₁, t₁', hmake, hmake', htogether, hwrite⟩ := hp.deposit h h' content
    simp only [hmake, hmake']
    obtain ⟨a, b, ha, hb, hab⟩ | ⟨e, e', he, he', rfl⟩ := hwrite.cases_on
    · simp only [ha, hb, true_and]
      exact hab
    · simp only [he, he', true_and]
      exact htogether

namespace InStep

variable {job : Job} {inputs : List Text} {t t' : FileTree} {s s' : Session} {u : Text}
  {o : Output}

lemma saveManifest (h : InStep job inputs t t' s s') (hsteps : Steps job t)
    (hgather : job.CanGather t) (hu : u ∈ job.compiled t inputs) (manifest : Entries) :
    InStep job inputs t t' (s.saveManifest job u manifest).1
        (s'.saveManifest job u manifest).1 ∧
      (s'.saveManifest job u manifest).2 = (s.saveManifest job u manifest).2 := by
  have hfirst : InBuild job t inputs (s.saveManifest job u manifest).1.tree
      (s.saveManifest job u manifest).1.store := h.first.saveManifest hu
  have hsecond : InBuild job t inputs (s'.saveManifest job u manifest).1.tree
      (s'.saveManifest job u manifest).1.store := h.second.saveManifest hu
  rcases hstore : s.store with _ | x | x
  · have hstore' := h.store.trans hstore
    simp only [Session.saveManifest, hstore, hstore', and_true]
    exact h
  · have hstore' := h.store.trans hstore
    have hx : job.manifestFiles? = some x := h.first.fits _ hstore
    have hp : t.Receives (job.directories t inputs) (job.targets t inputs) (x.path u) := by
      rw [FileStore.path, Job.outDir_of_manifestFiles hx]
      exact Job.receives hsteps.sound hu hgather hsteps.noDatabase x.format.ending
    obtain ⟨hanswer, htogether⟩ :=
      FileStore.save_together hp h.first.grows h.second.grows manifest
    rw [Session.saveManifest_files hstore] at hfirst ⊢
    rw [Session.saveManifest_files hstore', h.isCanceled] at hsecond ⊢
    by_cases hcanceled : s.isCanceled job = true
    · simp only [if_pos hcanceled, and_true]
      exact h
    · rw [if_neg hcanceled] at hfirst hsecond ⊢
      rw [if_neg hcanceled]
      rcases hsave : x.save s.tree u manifest with ⟨a, failure⟩
      rcases hsave' : x.save s'.tree u manifest with ⟨a', failure'⟩
      rw [hsave, hsave'] at hanswer htogether
      obtain rfl : failure' = failure := hanswer
      rw [hsave] at hfirst
      rw [hsave'] at hsecond
      cases failure' with
      | none => exact ⟨(h.step hfirst hsecond htogether).log _, rfl⟩
      | some f => exact ⟨h.step hfirst hsecond htogether, rfl⟩
  · exact absurd hstore (h.noTables x)

/-- Output is written in both sessions alike. -/
lemma writeOutput (h : InStep job inputs t t' s s') (hsteps : Steps job t)
    (hu : u ∈ job.compiled t inputs) (hmode : o.mode = job.options.mode) :
    InStep job inputs t t' (s.writeOutput job u o).1 (s'.writeOutput job u o).1 ∧
      (s'.writeOutput job u o).2 = (s.writeOutput job u o).2 := by
  have hending := job.options.mode.ending
  have hmaking := Job.makeDirectory_together hsteps.sound hu hsteps.noDatabase hending
    h.first.grows h.second.grows
  rw [Session.writeOutput, Session.writeOutput, hmode]
  obtain ⟨_, _, hmade, -, -⟩ | ⟨⟨e, a⟩, ⟨e', a'⟩, hmake, hmake', hfail⟩ := hmaking.cases_on
  · have hgather : job.CanGather t :=
      Job.canGather_of_ok hsteps.sound hu hsteps.noDatabase hending h.first.grows hmade
    have hp := Job.receives hsteps.sound hu hgather hsteps.noDatabase hending
    obtain ⟨a, a', hmake, hmake', htogether, hwrite⟩ :=
      hp.deposit h.first.grows h.second.grows o.artifact
    have hfirst := h.first.makeDirectory hu hending (FileTree.reached_of_ok hmake)
    have hsecond := h.second.makeDirectory hu hending (FileTree.reached_of_ok hmake')
    simp only [hmake, hmake']
    obtain ⟨b, b', hb, hb', hbb⟩ | ⟨e, e', he, he', rfl⟩ := hwrite.cases_on
    · have hplace : ∀ {c : FileTree} {store : Option Store}, InBuild job t inputs c store →
          resolve c.here (artifactPath job.settings.outDir u job.options.mode.suffix) ∈
            job.targets t inputs := by
        intro c store hc
        rw [hc.here]
        exact Job.place_mem_targets hu
      have hwritten := hfirst.step (FileTree.grows_write hb (hplace hfirst))
      have hwritten' := hsecond.step (FileTree.grows_write hb' (hplace hsecond))
      simp only [hb, hb']
      exact ((h.step hwritten hwritten' hbb).log _).saveManifest hsteps hgather hu o.manifest
    · simp only [he, he', and_true]
      exact h.step hfirst hsecond htogether
  · -- Both fail at the same directory, with those before it made.
    obtain ⟨rfl, htogether⟩ : e = e' ∧ FileTree.ChangeTogether s.tree s'.tree a a' := hfail
    have hfirst := h.first.makeDirectory hu hending (FileTree.reached_of_error hmake)
    have hsecond := h.second.makeDirectory hu hending (FileTree.reached_of_error hmake')
    simp only [hmake, hmake', and_true]
    exact h.step hfirst hsecond htogether

/-- The output of an input is emitted in both sessions alike, if the input comes from standard input
or from a file that compiles. -/
lemma emitOutput (h : InStep job inputs t t' s s') (hsteps : Steps job t)
    (hprint : job.print = false)
    (hu : u = standardInput ∨ u ∈ job.compiled t inputs ∧ o.mode = job.options.mode) :
    InStep job inputs t t' (Session.emitOutput job s u o).1 (Session.emitOutput job s' u o).1 ∧
      (Session.emitOutput job s' u o).2 = (Session.emitOutput job s u o).2 := by
  rcases hu with rfl | ⟨hu, hmode⟩
  · have hout : ∀ s : Session,
        Session.emitOutput job s standardInput o = (s.print o.artifact, none) := by
      intro s
      rw [Session.emitOutput, if_pos (by simp)]
    rw [hout, hout]
    exact ⟨h.mapConsole fun c => c.print o.artifact, rfl⟩
  · have hfile := (Job.mem_compiled.mp hu).2.1
    have hout : ∀ s : Session, Session.emitOutput job s u o = s.writeOutput job u o := by
      intro s
      rw [Session.emitOutput, if_neg (by simp [hprint, hfile])]
    rw [hout, hout]
    exact h.writeOutput hsteps hu hmode

lemma tally (h : InStep job inputs t t' s s') (failure : Option UnitFailure)
    (failed : FailedUnits) :
    InStep job inputs t t' (Session.tally job u s failure failed).1
        (Session.tally job u s' failure failed).1 ∧
      (Session.tally job u s' failure failed).2 = (Session.tally job u s failure failed).2 := by
  cases failure with
  | none => exact ⟨h, rfl⟩
  | some f => exact ⟨h.report f, rfl⟩

/-- A result is dealt with in both sessions alike. -/
lemma settle (h : InStep job inputs t t' s s') (hsteps : Steps job t)
    (hprint : job.print = false) {r : CompileResult}
    (hu : ∀ o, r = .ok o →
      u = standardInput ∨ u ∈ job.compiled t inputs ∧ o.mode = job.options.mode)
    (failed : FailedUnits) :
    InStep job inputs t t' (Session.settle job (Session.emitOutput job) (s, failed) u r).1
        (Session.settle job (Session.emitOutput job) (s', failed) u r).1 ∧
      (Session.settle job (Session.emitOutput job) (s', failed) u r).2 =
        (Session.settle job (Session.emitOutput job) (s, failed) u r).2 := by
  cases r with
  | error f => exact h.tally (some f) failed
  | ok o =>
    obtain ⟨hstep, hanswer⟩ := h.emitOutput hsteps hprint (hu o rfl)
    rw [Session.settle, Session.settle]
    generalize Session.emitOutput job s u o = x at hstep hanswer
    generalize Session.emitOutput job s' u o = x' at hstep hanswer
    obtain ⟨a, failure⟩ := x
    obtain ⟨a', failure'⟩ := x'
    obtain rfl : failure' = failure := hanswer
    exact InStep.tally hstep _ failed

/-- Both sessions and the units that have failed in them are in step. -/
def Tallies (job : Job) (inputs : List Text) (t t' : FileTree) (x x' : Tally) : Prop :=
  InStep job inputs t t' x.1 x'.1 ∧ x'.2 = x.2

lemma foldl_tallies {f g : Tally → Text → Tally} {paths : List Text} {x x' : Tally}
    (h : Tallies job inputs t t' x x')
    (hstep : ∀ p ∈ paths, ∀ x x', Tallies job inputs t t' x x' →
      Tallies job inputs t t' (f x p) (g x' p)) :
    Tallies job inputs t t' (paths.foldl f x) (paths.foldl g x') := by
  induction paths generalizing x x' with
  | nil => exact h
  | cons p rest ih =>
    obtain ⟨hp, hrest⟩ := List.forall_mem_cons.mp hstep
    exact ih (hp x x' h) hrest

/-- What comes from standard input is dealt with in both sessions alike. -/
lemma afterInput (h : InStep job inputs t t' s s') (hsteps : Steps job t)
    (hprint : job.print = false) :
    Tallies job inputs t t' (s.afterInput job (Session.emitOutput job) inputs)
      (s'.afterInput job (Session.emitOutput job) inputs) := by
  refine foldl_tallies ⟨h, rfl⟩ fun _ _ x x' hx => ?_
  obtain ⟨hstep, hfailed⟩ := hx
  have hused : InStep job inputs t t' { x.1 with input := [] } { x'.1 with input := [] } :=
    ⟨hstep.console, rfl, hstep.store, hstep.noTables, hstep.first, hstep.second, hstep.together⟩
  rw [settleInput_eq, settleInput_eq, ofInput, ofInput, hstep.input, hfailed]
  exact hused.settle hsteps hprint (fun _ _ => .inl rfl) x.2

/-- A batch logs the same lines and has the same results in both sessions. -/
lemma batch {compile compile' : Text → CompileResult} {files : List Text}
    (h : InStep job inputs t t' s s') (hcompile : ∀ u ∈ files, compile' u = compile u)
    (mode : OutputMode) (results : List (Text × CompileResult)) :
    let x := Batch.run (collecting job) mode compile files (s, results)
    let x' := Batch.run (collecting job) mode compile' files (s', results)
    InStep job inputs t t' x.1.1 x'.1.1 ∧ x'.1.2 = x.1.2 ∧ x'.2 = x.2 := by
  induction files generalizing s s' results with
  | nil => exact ⟨h, rfl, rfl⟩
  | cons u rest ih =>
    obtain ⟨hu, hrest⟩ := List.forall_mem_cons.mp hcompile
    have hcanceled : (collecting job).isCanceled (s', results) =
        (collecting job).isCanceled (s, results) := h.isCanceled
    simp only [Batch.run, hcanceled, hu]
    split_ifs
    · exact ⟨h, rfl, rfl⟩
    · exact ih (h.log _) hrest ((u, compile u) :: results)

/-- Collected results are dealt with in both sessions alike. -/
lemma settleAll (h : InStep job inputs t t' s s') (hsteps : Steps job t)
    (hprint : job.print = false) {files : List Text} {results : List (Text × CompileResult)}
    (hresults : ∀ u ∈ files, ∃ r, results.lookup u = some r ∧
      ∀ o, r = .ok o → u ∈ job.compiled t inputs ∧ o.mode = job.options.mode) :
    Tallies job inputs t t'
      (files.foldl (settleFrom job (Session.emitOutput job) results) (s, []))
      (files.foldl (settleFrom job (Session.emitOutput job) results) (s', [])) := by
  refine foldl_tallies ⟨h, rfl⟩ ?_
  rintro u hu ⟨a, failed⟩ ⟨a', failed'⟩ ⟨hstep, hfailed⟩
  obtain rfl : failed' = failed := hfailed
  obtain ⟨r, hlookup, hr⟩ := hresults u hu
  simp only [settleFrom, hlookup]
  exact InStep.settle hstep hsteps hprint (fun o ho => .inr (hr o ho)) _

/-- Files are compiled and their output is emitted in both sessions alike, if the second one finds
the same in them. -/
lemma compileInputs (h : InStep job inputs t t' s s') (hsteps : Steps job t)
    (hprint : job.print = false) (htree : s.tree = t)
    (hcompile : ∀ u ∈ inputs, u ≠ standardInput →
      s'.tree.compileFile job.options u = t.compileFile job.options u) :
    InStep job inputs t t' (s.compileInputs job (Session.emitOutput job) inputs).1
        (s'.compileInputs job (Session.emitOutput job) inputs).1 ∧
      (s'.compileInputs job (Session.emitOutput job) inputs).2 =
        (s.compileInputs job (Session.emitOutput job) inputs).2 := by
  obtain ⟨hmid, hfailed⟩ := h.afterInput hsteps hprint
  have hkept : ∀ s : Session,
      (s.afterInput job (Session.emitOutput job) inputs).1.tree = s.tree := fun s =>
    (foldl_settleInput job (inputs.filter (· = standardInput)) (s, [])).2.1
  rw [compileInputs_eq s job _ inputs 1, compileInputs_eq s' job _ inputs 1]
  simp only [filePlan, Batch.Plan.ofTree, hkept, htree]
  have hfiles : ∀ u ∈ inputs.filter (· ≠ standardInput), u ∈ inputs ∧ u ≠ standardInput := by
    intro u hu
    exact ⟨(List.mem_filter.mp hu).1, by simpa using (List.mem_filter.mp hu).2⟩
  have hbatch := hmid.batch (fun u hu => hcompile u (hfiles u hu).1 (hfiles u hu).2)
    job.options.mode []
  rcases hrun : Batch.run (collecting job) job.options.mode (t.compileFile job.options)
    (inputs.filter (· ≠ standardInput)) ((s.afterInput job (Session.emitOutput job) inputs).1, [])
    with ⟨⟨a, results⟩, failure⟩
  rcases hrun' : Batch.run (collecting job) job.options.mode (s'.tree.compileFile job.options)
    (inputs.filter (· ≠ standardInput)) ((s'.afterInput job (Session.emitOutput job) inputs).1, [])
    with ⟨⟨a', results'⟩, failure'⟩
  simp only [hrun, hrun'] at hbatch
  obtain ⟨hstep, rfl, rfl⟩ := hbatch
  cases failure' with
  | some f => exact ⟨hstep, rfl⟩
  | none =>
    obtain ⟨-, -, hresults⟩ := run_collecting hrun
    have hlookup : ∀ u ∈ inputs.filter (· ≠ standardInput), ∃ r, results'.lookup u = some r ∧
        ∀ o, r = .ok o → u ∈ job.compiled t inputs ∧ o.mode = job.options.mode := by
      intro u hu
      refine ⟨t.compileFile job.options u, ?_, fun o ho => ⟨?_, mode_of_compileFile ho⟩⟩
      · rw [hresults, List.append_nil]
        exact lookup_results (List.mem_reverse.mpr hu)
      · exact Job.mem_compiled.mpr ⟨(hfiles u hu).1, (hfiles u hu).2, o, ho⟩
    obtain ⟨hall, hcount⟩ := hstep.settleAll hsteps hprint hlookup
    refine ⟨hall, ?_⟩
    simp only [conclude, hcount, hfailed]

end InStep

end SheetFormula
