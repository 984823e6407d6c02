import SheetFormula.Proofs.CommandLine.Writing

/-!
# What the time of a run matters for

Manifests in a database are marked with the time at which they are saved. Nothing else depends on
the time, so a build without a database does the same at any other time.
-/

namespace SheetFormula

open SheetFormula.Path Session

/-! ### Sessions without a database -/

/-- A session that has no database open. -/
def Session.NoTables (s : Session) : Prop := ∀ x, s.store ≠ some (.tables x)

/-- A manifest is saved in a file, unless the run has been interrupted. -/
lemma Session.saveManifest_files {s : Session} {x : FileStore} (hstore : s.store = some (.files x))
    (job : Job) (u : Text) (manifest : Entries) :
    s.saveManifest job u manifest =
      if s.isCanceled job then (s, some (.during "saving manifest" .canceled))
      else
        match x.save s.tree u manifest with
        | (tree, some f) => ({ s with tree := tree }, some (.during "saving manifest" f))
        | (tree, none) =>
          (Session.log { s with tree := tree } job
            ⟨.debug, "saved " ++ Text.ofNat manifest.length ++ " exports for " ++ u⟩, none) := by
  obtain ⟨tree, input, console, store⟩ := s
  obtain rfl : store = some (.files x) := hstore
  simp only [saveManifest, Store.save]
  split_ifs
  · rfl
  · rcases x.save tree u manifest with ⟨tree', _ | f⟩ <;> rfl

/-- The same job at another time. -/
def Job.again (job : Job) (now : Instant) : Job := { job with now := now }

namespace Session

variable {s : Session} {job : Job} {u : Text} {o : Output} {now : Instant}

/-- Manifests are saved one way at any time, and the store stays as it is. -/
lemma saveManifest_again (h : s.NoTables) (manifest : Entries) :
    s.saveManifest (job.again now) u manifest = s.saveManifest job u manifest ∧
      (s.saveManifest job u manifest).1.store = s.store := by
  rcases hs : s.store with _ | x | x
  · simp only [saveManifest, hs, and_self]
  · rw [saveManifest_files hs, saveManifest_files hs]
    have hcanceled : s.isCanceled (job.again now) = s.isCanceled job := rfl
    have hlog : ∀ (s : Session) l, s.log (job.again now) l = s.log job l := fun _ _ => rfl
    rw [hcanceled]
    simp only [hlog, true_and]
    split_ifs
    · exact hs
    · rcases x.save s.tree u manifest with ⟨tree, _ | f⟩ <;> exact hs
  · exact absurd hs (h x)

lemma writeOutput_again (h : s.NoTables) :
    s.writeOutput (job.again now) u o = s.writeOutput job u o ∧
      (s.writeOutput job u o).1.store = s.store := by
  have hsettings : (job.again now).settings = job.settings := rfl
  have hlog : ∀ (s : Session) l, s.log (job.again now) l = s.log job l := fun _ _ => rfl
  rw [writeOutput, writeOutput, hsettings]
  cases s.tree.makeDirectory (dir (artifactPath job.settings.outDir u o.mode.suffix)) with
  | error e => exact ⟨rfl, rfl⟩
  | ok made =>
    simp only
    cases made.write (artifactPath job.settings.outDir u o.mode.suffix) o.artifact with
    | error e => exact ⟨rfl, rfl⟩
    | ok written =>
      simp only [hlog]
      apply saveManifest_again
      exact h

lemma emitOutput_again (h : s.NoTables) (u : Text) (o : Output) (job : Job) (now : Instant) :
    emitOutput (job.again now) s u o = emitOutput job s u o ∧
      (emitOutput job s u o).1.store = s.store := by
  have hprint : (job.again now).print = job.print := rfl
  simp only [emitOutput, hprint]
  split_ifs
  · exact ⟨rfl, rfl⟩
  · exact writeOutput_again h

lemma tally_again (s : Session) (failure : Option UnitFailure) (failed : FailedUnits) :
    tally (job.again now) u s failure failed = tally job u s failure failed ∧
      (tally job u s failure failed).1.store = s.store := by
  have hjson : (job.again now).json = job.json := rfl
  cases failure with
  | none => exact ⟨rfl, rfl⟩
  | some f =>
    simp only [tally, report_eq, hjson, true_and]
    rfl

/-- Two tallies come from one, with its store: at two times, the same. -/
def SameAgain (x y z : Tally) : Prop := x.1.NoTables → y = z ∧ z.1.store = x.1.store

lemma settle_again (x : Tally) (u : Text) (r : CompileResult) (job : Job) (now : Instant) :
    SameAgain x (settle (job.again now) (emitOutput (job.again now)) x u r)
      (settle job (emitOutput job) x u r) := by
  intro hx
  cases r with
  | error f =>
    simp only [settle]
    exact tally_again x.1 (some f) x.2
  | ok o =>
    obtain ⟨hemit, hstore⟩ := emitOutput_again hx u o job now
    simp only [settle, hemit]
    generalize emitOutput job x.1 u o = y at hstore
    obtain ⟨after, failure⟩ := y
    obtain ⟨htally, hkept⟩ : tally (job.again now) u after (failure.map .failure) x.2 =
      tally job u after (failure.map .failure) x.2 ∧ _ := tally_again after _ x.2
    exact ⟨htally, hkept.trans hstore⟩

lemma foldl_again {f g : Tally → Text → Tally} {paths : List Text}
    (h : ∀ p ∈ paths, ∀ x, SameAgain x (f x p) (g x p)) (x : Tally) :
    SameAgain x (paths.foldl f x) (paths.foldl g x) := by
  intro hx
  induction paths generalizing x with
  | nil => exact ⟨rfl, rfl⟩
  | cons p rest ih =>
    obtain ⟨hp, hrest⟩ := List.forall_mem_cons.mp h
    obtain ⟨hsame, hstore⟩ := hp x hx
    have hnext : (g x p).1.NoTables := by
      rw [NoTables, hstore]
      exact hx
    obtain ⟨hsame', hstore'⟩ := ih hrest (g x p) hnext
    rw [List.foldl_cons, List.foldl_cons, hsame]
    exact ⟨hsame', hstore'.trans hstore⟩

/-- Files are compiled and their output is emitted in the same way at any time. -/
lemma compileInputs_again (h : s.NoTables) (inputs : List Text) (job : Job) (now : Instant) :
    s.compileInputs (job.again now) (emitOutput (job.again now)) inputs =
      s.compileInputs job (emitOutput job) inputs := by
  have hoptions : (job.again now).options = job.options := rfl
  have hinput : ∀ x, SameAgain x (settleInput (job.again now) (emitOutput (job.again now)) x)
      (settleInput job (emitOutput job) x) := by
    intro x
    have hsource : ofInput (job.again now) x.1 standardInput = ofInput job x.1 standardInput := by
      simp only [ofInput, textResult, hoptions]
    rw [settleInput_eq, settleInput_eq, hsource]
    intro hx
    exact settle_again ((ofInput job x.1 standardInput).1, x.2) standardInput _ job now hx
  obtain ⟨hafter, hstore⟩ : s.afterInput (job.again now) (emitOutput (job.again now)) inputs =
      s.afterInput job (emitOutput job) inputs ∧ _ :=
    foldl_again (fun _ _ => hinput) (s, []) h
  have hcollecting : collecting (job.again now) = collecting job := rfl
  rw [compileInputs_eq s job _ inputs 1, compileInputs_eq s (job.again now) _ inputs 1]
  simp only [filePlan, Batch.Plan.ofTree, hafter, hoptions, hcollecting]
  rcases hrun : Batch.run (collecting job) job.options.mode
    ((s.afterInput job (emitOutput job) inputs).1.tree.compileFile job.options)
    (inputs.filter (· ≠ standardInput)) ((s.afterInput job (emitOutput job) inputs).1, []) with
    ⟨⟨a, results⟩, _ | f⟩
  · have ha : a.NoTables := by
      rw [NoTables, (run_collecting hrun).1, afterInput, hstore]
      exact h
    have hsettle : ∀ p ∈ inputs.filter (· ≠ standardInput), ∀ x,
        SameAgain x (settleFrom (job.again now) (emitOutput (job.again now)) results x p)
          (settleFrom job (emitOutput job) results x p) := by
      intro p _ x
      simp only [settleFrom]
      cases results.lookup p with
      | none => exact fun _ => ⟨rfl, rfl⟩
      | some r => exact settle_again x p r job now
    obtain ⟨hlast, -⟩ := foldl_again hsettle (a, []) ha
    simp only [conclude, hlast]
  · simp only [conclude]

/-- A store of files is opened without a look at the tree. -/
lemma openStore_files {opened : Session} (hstore : s.store = none)
    (hfiles : job.FilesOnly) (hopen : s.openStore job = .ok opened) :
    opened.NoTables ∧ opened.tree = s.tree ∧ ∀ t : FileTree,
      openStore { s with tree := t } job = .ok { opened with tree := t } := by
  rw [openStore] at hopen
  by_cases hoff : (!job.settings.manifest.enabled) = true
  · rw [if_pos hoff] at hopen
    obtain rfl := Except.ok.inj hopen
    refine ⟨fun x hx => ?_, rfl, fun t => ?_⟩
    · rw [hstore] at hx
      cases hx
    · rw [openStore, if_pos hoff]
  · have hfile : job.settings.manifest.store = "file" :=
      hfiles.resolve_left fun hdisabled => hoff (by simp [hdisabled])
    rw [if_neg hoff] at hopen
    cases hformat : Format.parse job.settings.manifest.format with
    | error message =>
      rw [Store.openFor, hfile, if_neg (by decide), if_pos (by decide), hformat] at hopen
      cases hopen
    | ok format =>
      have hopenFor : ∀ t, Store.openFor t job.settings.manifest job.settings.outDir =
          .ok (.files ⟨format, job.settings.outDir⟩, t) := by
        intro t
        rw [Store.openFor, hfile, if_neg (by decide), if_pos (by decide), hformat]
      rw [hopenFor] at hopen
      obtain rfl := Except.ok.inj hopen
      refine ⟨fun x hx => ?_, rfl, fun t => ?_⟩
      · cases hx
      · rw [openStore, if_neg hoff, hopenFor]

lemma build_again (hstore : s.store = none) (job : Job) (hfiles : job.FilesOnly)
    (arguments : List Text) (now : Instant) :
    s.build (job.again now) arguments = s.build job arguments := by
  have hprint : (job.again now).print = job.print := rfl
  have hopen : s.openStore (job.again now) = s.openStore job := rfl
  simp only [build, hprint, hopen]
  cases expandInputs s.tree arguments with
  | error f => rfl
  | ok inputs =>
    simp only
    cases hopened : (if job.print = true then .ok s else s.openStore job) with
    | error f => rfl
    | ok opened =>
      have htables : opened.NoTables := by
        split_ifs at hopened
        · obtain rfl := Except.ok.inj hopened
          intro x hx
          rw [hstore] at hx
          cases hx
        · exact (openStore_files hstore hfiles hopened).1
      simp only [compileInputs_again htables]

end Session

def Task.again (task : Task) (now : Instant) : Task := { task with job := task.job.again now }

/-- The task that arguments ask for is the same at any time. -/
lemma Machine.task_again (m : Machine) (t : FileTree) (arguments : List Text) (now : Instant) :
    Machine.task? { m with now := now } t arguments =
      (m.task? t arguments).map fun task => task.again now := by
  have hsettings : ∀ f, Settings.ofRun { m with now := now } t f = Settings.ofRun m t f :=
    fun _ => rfl
  rw [Machine.task?, Machine.task?]
  cases Flags.parse (Command.ofArguments arguments).2 with
  | help => rfl
  | wrong e => rfl
  | flags f given =>
    simp only [hsettings]
    split_ifs
    · rfl
    · cases Settings.ofRun m t f with
      | error e => rfl
      | ok settings =>
        simp only
        cases settings.compileOptions with
        | error e => rfl
        | ok x => rfl

namespace Session

/-- A run that has no use for a database does the same at any time. -/
lemma run_again {s : Session} {m : Machine} {arguments : List Text} (hstore : s.store = none)
    (htask : ∀ task, m.task? s.tree arguments = some task →
      task.command = .build ∧ task.job.FilesOnly)
    (now : Instant) : s.run { m with now := now } arguments = s.run m arguments := by
  have hsettings : ∀ f, Settings.ofRun { m with now := now } s.tree f = Settings.ofRun m s.tree f :=
    fun _ => rfl
  rw [Machine.task?] at htask
  rcases hcommand : Command.ofArguments arguments with ⟨c, rest⟩
  simp only [hcommand] at htask
  simp only [run, hcommand]
  cases hparse : Flags.parse rest with
  | help => simp only
  | wrong e => simp only
  | flags f given =>
    simp only [hparse] at htask
    simp only
    split_ifs with hhelp hversion
    · rfl
    · rfl
    · rw [if_neg (by simp [hhelp, hversion])] at htask
      rw [runCommand, runCommand, hsettings]
      cases hof : Settings.ofRun m s.tree f with
      | error e => rfl
      | ok settings =>
        simp only [hof] at htask
        simp only
        cases hoptions : settings.compileOptions with
        | error e => rfl
        | ok x =>
          obtain ⟨options, threshold⟩ := x
          simp only [hoptions] at htask
          obtain ⟨rfl, hfiles⟩ := htask _ rfl
          simp only [perform]
          exact congrArg _ (build_again (s := s.warn _) hstore
            (m.job f settings options threshold) hfiles given now)

end Session

end SheetFormula
