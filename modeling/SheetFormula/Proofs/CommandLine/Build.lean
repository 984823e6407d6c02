import SheetFormula.Proofs.CommandLine.Emitting

/-!
# What a failed unit leaves behind

A build compiles its units in one batch and emits the results in order. A unit that fails leaves its
manifest as it was, and its artifact too, unless the failure is one of saving the manifest: then the
new artifact has been written already.
-/

namespace SheetFormula

open SheetFormula.Path

/-! ### Emitting the results of a batch -/

namespace Session

variable {job : Job} {units : List Text} {compile : Text → CompileResult} {here : Location}
  {s s' : Session} {u v : Text} {failed failed' : FailedUnits}

/-- The failed units that results add are theirs. -/
lemma failed_settleFrom (job : Job) (emit : Emit) (results : List (Text × CompileResult))
    (t : Tally) (v : Text) :
    ∃ more, (settleFrom job emit results t v).2 = t.2 ++ more ∧ ∀ x ∈ more, x.1 = v := by
  have htally : ∀ (s : Session) (failure : Option UnitFailure) (failed : FailedUnits),
      ∃ more, (tally job v s failure failed).2 = failed ++ more ∧ ∀ x ∈ more, x.1 = v := by
    intro s failure failed
    cases failure with
    | none => exact ⟨[], by simp [tally], by simp⟩
    | some f => exact ⟨[(v, f)], by simp [tally], by simp⟩
  rw [settleFrom]
  split
  · rename_i r _
    cases r with
    | error f => exact htally _ _ _
    | ok o => exact htally _ _ _
  · exact ⟨[], by simp, by simp⟩

lemma failed_foldl (job : Job) (emit : Emit) (results : List (Text × CompileResult))
    (files : List Text) (t : Tally) :
    ∃ more, (files.foldl (settleFrom job emit results) t).2 = t.2 ++ more ∧
      ∀ x ∈ more, x.1 ∈ files := by
  induction files generalizing t with
  | nil => exact ⟨[], by simp, by simp⟩
  | cons v rest ih =>
    obtain ⟨first, hfirst, hv⟩ := failed_settleFrom job emit results t v
    obtain ⟨more, hmore, hrest⟩ := ih (settleFrom job emit results t v)
    refine ⟨first ++ more, ?_, ?_⟩
    · rw [List.foldl_cons, hmore, hfirst, List.append_assoc]
    · intro x hx
      rcases List.mem_append.mp hx with hx | hx
      · exact hv x hx ▸ List.mem_cons_self
      · exact List.mem_cons_of_mem v (hrest x hx)

section Settling

variable (hmode : ∀ v o, compile v = .ok o → o.mode = job.options.mode)
  (herror : ∀ v f, compile v = .error f → f.isInSaving = false) (hprint : job.print = false)
include hmode herror hprint

/-- A result that is emitted adds at most its unit to the failed ones. -/
lemma settle_spec (h : Steady job units compile here s.store s.tree)
    (hv : v ∈ units) (hfile : v ≠ standardInput)
    (hsettle : settle job (emitOutput job) (s, failed) v (compile v) = (s', failed')) :
    Steady job units compile here s'.store s'.tree ∧
      (∀ u ∈ units, job.place here u ≠ job.place here v →
        job.emitted s'.store s'.tree u = job.emitted s.store s.tree u) ∧
      (failed' = failed ∨ ∃ f, failed' = failed ++ [(v, f)] ∧
        Emitted.LeftBy f (compile v) (job.emitted s.store s.tree v)
          (job.emitted s'.store s'.tree v)) := by
  cases hresult : compile v with
  | error f =>
    rw [hresult] at hsettle
    have hreport : ∀ f, (s.report job f).store = s.store ∧ (s.report job f).tree = s.tree := by
      intro f
      cases f <;> exact ⟨rfl, rfl⟩
    cases hsettle
    rw [(hreport f).1, (hreport f).2]
    refine ⟨h, fun _ _ _ => rfl, .inr ⟨f, rfl, rfl, fun _ => rfl, fun hsaving => ?_⟩⟩
    rw [herror v f hresult] at hsaving
    cases hsaving
  | ok o =>
    rcases hwrite : s.writeOutput job v o with ⟨s₁, failure⟩
    obtain ⟨hsteady, hothers, hleft⟩ := h.writeOutput hv hresult (hmode v o hresult) hwrite
    have hemit : emitOutput job s v o = (s₁, failure) := by
      rw [emitOutput, if_neg (by simp [hprint, hfile]), hwrite]
    rw [hresult, settle] at hsettle
    simp only [hemit] at hsettle
    cases failure with
    | none =>
      cases hsettle
      exact ⟨hsteady, hothers, .inl rfl⟩
    | some f =>
      cases hsettle
      exact ⟨hsteady, hothers, .inr ⟨.failure f, rfl, hleft f rfl⟩⟩

/-- Emitting other results leaves the output of a unit. -/
lemma foldl_settle_others {results : List (Text × CompileResult)} {files : List Text} {t t' : Tally}
    (h : Steady job units compile here t.1.store t.1.tree)
    (hresults : ∀ v ∈ files, results.lookup v = some (compile v))
    (hfiles : ∀ v ∈ files, v ∈ units ∧ v ≠ standardInput) (hu : u ∈ units)
    (hothers : ∀ v ∈ files, job.place here v ≠ job.place here u)
    (hfold : files.foldl (settleFrom job (emitOutput job) results) t = t') :
    Steady job units compile here t'.1.store t'.1.tree ∧
      job.emitted t'.1.store t'.1.tree u = job.emitted t.1.store t.1.tree u := by
  induction files generalizing t with
  | nil =>
    cases hfold
    exact ⟨h, rfl⟩
  | cons v rest ih =>
    obtain ⟨hresult, hresults⟩ := List.forall_mem_cons.mp hresults
    obtain ⟨⟨hv, hfile⟩, hfiles⟩ := List.forall_mem_cons.mp hfiles
    obtain ⟨hne, hothers⟩ := List.forall_mem_cons.mp hothers
    rcases hsettle : settle job (emitOutput job) t v (compile v) with ⟨s₁, failed₁⟩
    obtain ⟨hsteady, hsame, -⟩ := settle_spec hmode herror hprint h hv hfile hsettle
    rw [List.foldl_cons, settleFrom, hresult] at hfold
    simp only [hsettle] at hfold
    obtain ⟨hsteady', hsame'⟩ := ih hsteady hresults hfiles hothers hfold
    exact ⟨hsteady', hsame'.trans (hsame u hu hne.symm)⟩

/-- Emitting results leaves of a unit that fails what a failed unit leaves, if no other result goes
to the same artifact. -/
lemma foldl_settle_unit {results : List (Text × CompileResult)} {files : List Text} {t t' : Tally}
    {f : UnitFailure} (h : Steady job units compile here t.1.store t.1.tree)
    (hresults : ∀ v ∈ files, results.lookup v = some (compile v))
    (hfiles : ∀ v ∈ files, v ∈ units ∧ v ≠ standardInput)
    (hothers : ∀ v ∈ files.erase u, job.place here v ≠ job.place here u) (hu : u ∈ files)
    (hfold : files.foldl (settleFrom job (emitOutput job) results) t = t')
    (hnew : ∀ x ∈ t.2, x.1 ≠ u) (hfailed : (u, f) ∈ t'.2) :
    Emitted.LeftBy f (compile u) (job.emitted t.1.store t.1.tree u)
      (job.emitted t'.1.store t'.1.tree u) := by
  -- The files before the unit, the unit itself, and the files after it.
  obtain ⟨before, after, -, rfl, herase⟩ := List.exists_erase_eq hu
  rw [herase] at hothers
  obtain ⟨hbefore, hafter⟩ := List.forall_mem_append.mp hothers
  obtain ⟨hfiles₁, hfiles₂⟩ := List.forall_mem_append.mp hfiles
  obtain ⟨⟨hunit, hfile⟩, hfiles₃⟩ := List.forall_mem_cons.mp hfiles₂
  obtain ⟨hresults₁, hresults₂⟩ := List.forall_mem_append.mp hresults
  obtain ⟨hresult, hresults₃⟩ := List.forall_mem_cons.mp hresults₂
  rw [List.foldl_append, List.foldl_cons, settleFrom, hresult] at hfold
  obtain ⟨more₁, hmore₁, hnames₁⟩ := failed_foldl job (emitOutput job) results before t
  generalize hfirst : before.foldl (settleFrom job (emitOutput job) results) t = t₁ at hfold hmore₁
  obtain ⟨h₁, hsame₁⟩ := foldl_settle_others hmode herror hprint h hresults₁ hfiles₁ hunit hbefore
    hfirst
  rcases hsecond : settle job (emitOutput job) t₁ u (compile u) with ⟨s₂, failed₂⟩
  simp only [hsecond] at hfold
  obtain ⟨h₂, -, hcount⟩ := settle_spec hmode herror hprint h₁ hunit hfile hsecond
  obtain ⟨more₃, hmore₃, hnames₃⟩ :=
    failed_foldl job (emitOutput job) results after (s₂, failed₂)
  rw [hfold] at hmore₃
  obtain ⟨-, hsame₃⟩ := foldl_settle_others hmode herror hprint h₂ hresults₃ hfiles₃ hunit hafter
    hfold
  -- Only the unit itself can have added itself to the failed ones.
  have hold : (u, f) ∉ t₁.2 := by
    rw [hmore₁, List.mem_append, not_or]
    exact ⟨fun hmem => hnew _ hmem rfl, fun hmem => hbefore u (hnames₁ _ hmem) rfl⟩
  have hmem₂ : (u, f) ∈ failed₂ := by
    rw [hmore₃] at hfailed
    rcases List.mem_append.mp hfailed with hmem | hmem
    · exact hmem
    · exact absurd rfl (hafter u (hnames₃ _ hmem))
  rcases hcount with hcount | ⟨f', hcount, hleft⟩
  · rw [hcount] at hmem₂
    exact absurd hmem₂ hold
  · rw [hcount, List.mem_append, List.mem_singleton] at hmem₂
    obtain rfl : f = f' := (Prod.mk.inj (hmem₂.resolve_left hold)).2
    rw [hsame₃, ← hsame₁]
    exact hleft

end Settling

/-- A batch that runs to its end has the result of every file, and changes neither files nor the
store. -/
lemma run_collecting {mode : OutputMode} {files : List Text}
    {results results' : List (Text × CompileResult)}
    (hrun : Batch.run (collecting job) mode compile files (s, results) = ((s', results'), none)) :
    s'.store = s.store ∧ s'.tree = s.tree ∧
      results' = files.reverse.map (fun v => (v, compile v)) ++ results := by
  induction files generalizing s results with
  | nil =>
    cases hrun
    exact ⟨rfl, rfl, rfl⟩
  | cons v rest ih =>
    rw [Batch.run] at hrun
    split at hrun
    · cases hrun
    · obtain ⟨hstore, htree, hresults⟩ := ih hrun
      refine ⟨hstore, htree, ?_⟩
      rw [hresults]
      simp

lemma lookup_results {files : List Text} (hv : v ∈ files) :
    (files.map fun v => (v, compile v)).lookup v = some (compile v) := by
  induction files with
  | nil => cases hv
  | cons w rest ih =>
    rw [List.map_cons, List.lookup_cons]
    by_cases hw : v = w
    · rw [hw, beq_self_eq_true]
    · rw [beq_eq_false_iff_ne.mpr hw]
      exact ih ((List.mem_cons.mp hv).resolve_left hw)

/-! ### Compiling files -/

lemma mode_of_compileFile {t : FileTree} {options : CompileOptions} {o : Output}
    (h : t.compileFile options v = .ok o) : o.mode = options.mode := by
  rw [FileTree.compileFile, Result.bind_eq_ok] at h
  obtain ⟨program, -, h⟩ := h
  rw [Result.mapError_eq_ok, Output.ofProgram, Result.bind_eq_ok] at h
  obtain ⟨unit, -, h⟩ := h
  cases hmode : options.mode with
  | packed =>
    rw [hmode] at h
    cases h
    rfl
  | unpacked =>
    rw [hmode] at h
    simp only [Output.ofUnit] at h
    split_ifs at h
    cases h
    rfl

lemma isInSaving_of_compileFile {t : FileTree} {options : CompileOptions} {f : UnitFailure}
    (h : t.compileFile options v = .error f) : f.isInSaving = false := by
  rw [FileTree.compileFile, Result.bind_eq_error] at h
  rcases h with h | ⟨program, -, h⟩
  · rw [FileTree.decodeFile, Result.bind_eq_error] at h
    rcases h with h | ⟨content, -, h⟩
    · obtain ⟨e, -, rfl⟩ := Result.mapError_eq_error.mp h
      rfl
    · obtain ⟨d, -, rfl⟩ := Result.mapError_eq_error.mp h
      rfl
  · obtain ⟨d, -, rfl⟩ := Result.mapError_eq_error.mp h
    rfl

/-- A unit that compiles is in a directory. -/
lemma directory_of_compileFile {t : FileTree} {options : CompileOptions} {o : Output}
    (h : t.compileFile options v = .ok o) :
    t.get? (resolve t.here (front v)) = some .directory := by
  rw [FileTree.compileFile, Result.bind_eq_ok] at h
  obtain ⟨program, h, -⟩ := h
  rw [FileTree.decodeFile, Result.bind_eq_ok] at h
  obtain ⟨content, h, -⟩ := h
  rw [Result.mapError_eq_ok, FileTree.read, FileTree.find] at h
  cases hlocate : t.locate v with
  | error fault => simp [hlocate, bind, Except.bind] at h
  | ok l =>
    obtain ⟨-, hway, -⟩ := FileTree.locate_eq_ok.mp hlocate
    exact hway _ (resolve_front_mem_way t.here v)

/-- A unit that fails in a batch, and that shares its artifact with no other file, leaves its
manifest as it was, and its artifact as it was or as it was compiled. -/
lemma compileFiles_spec {files : List Text}
    (h : Steady job units (s.tree.compileFile job.options) here s.store s.tree)
    (hprint : job.print = false) (hfiles : ∀ v ∈ files, v ∈ units ∧ v ≠ standardInput)
    (hrun : s.compileFiles job (emitOutput job) files = (s', .ok failed)) :
    ∀ u f, (u, f) ∈ failed → (∀ v ∈ files.erase u, job.place here v ≠ job.place here u) →
      u ∈ files ∧ Emitted.LeftBy f (s.tree.compileFile job.options u)
        (job.emitted s.store s.tree u) (job.emitted s'.store s'.tree u) := by
  intro u f hfailed hothers
  have hmode : ∀ v o, s.tree.compileFile job.options v = .ok o → o.mode = job.options.mode :=
    fun v o => mode_of_compileFile
  have herror : ∀ v f, s.tree.compileFile job.options v = .error f → f.isInSaving = false :=
    fun v f => isInSaving_of_compileFile
  rw [compileFiles] at hrun
  split at hrun
  · cases hrun
  rename_i s₀ results hbatch
  cases hrun
  obtain ⟨hstore, htree, hresults⟩ := run_collecting hbatch
  have hlookup : ∀ v ∈ files, results.lookup v = some (s.tree.compileFile job.options v) := by
    intro v hv
    rw [hresults, List.append_nil]
    exact lookup_results (List.mem_reverse.mpr hv)
  obtain ⟨all, hall, hnames⟩ := failed_foldl job (emitOutput job) results files (s₀, [])
  have hu : u ∈ files := by
    rw [hall] at hfailed
    exact hnames _ hfailed
  have h₀ : Steady job units (s.tree.compileFile job.options) here s₀.store s₀.tree := by
    rw [hstore, htree]
    exact h
  have hleft := foldl_settle_unit (t := (s₀, [])) hmode herror hprint h₀ hlookup hfiles hothers hu
    rfl (by simp) hfailed
  rw [hstore, htree] at hleft
  exact ⟨hu, hleft⟩

/-! ### Compiling inputs -/

/-- What comes from standard input goes to no file. -/
lemma settleInput_spec (job : Job) (t : Tally) :
    (settleInput job (emitOutput job) t).1.store = t.1.store ∧
      (settleInput job (emitOutput job) t).1.tree = t.1.tree ∧
      ∃ more, (settleInput job (emitOutput job) t).2 = t.2 ++ more ∧
        ∀ x ∈ more, x.1 = standardInput := by
  have hinput : ∃ s' failure, t.1.compileInput job (emitOutput job) = (s', failure) ∧
      s'.store = t.1.store ∧ s'.tree = t.1.tree := by
    rw [compileInput]
    simp only
    split
    · exact ⟨_, _, rfl, rfl, rfl⟩
    · rename_i o _
      have hemit : ∀ s : Session,
          emitOutput job s standardInput o = (s.print o.artifact, none) := by
        intro s
        rw [emitOutput, if_pos (by simp)]
      rw [hemit]
      exact ⟨_, _, rfl, rfl, rfl⟩
  obtain ⟨s', failure, hcompile, hstore, htree⟩ := hinput
  rw [settleInput, hcompile]
  cases failure with
  | none => exact ⟨hstore, htree, [], by simp [tally], by simp⟩
  | some f =>
    refine ⟨?_, ?_, [(standardInput, f)], by simp [tally], by simp⟩
    · cases f <;> exact hstore
    · cases f <;> exact htree

lemma foldl_settleInput (job : Job) (inputs : List Text) (t : Tally) :
    (inputs.foldl (fun t _ => settleInput job (emitOutput job) t) t).1.store = t.1.store ∧
      (inputs.foldl (fun t _ => settleInput job (emitOutput job) t) t).1.tree = t.1.tree ∧
      ∃ more, (inputs.foldl (fun t _ => settleInput job (emitOutput job) t) t).2 = t.2 ++ more ∧
        ∀ x ∈ more, x.1 = standardInput := by
  induction inputs generalizing t with
  | nil => exact ⟨rfl, rfl, [], by simp, by simp⟩
  | cons _ rest ih =>
    obtain ⟨hstore, htree, first, hfirst, hnames⟩ := settleInput_spec job t
    obtain ⟨hstore', htree', more, hmore, hnames'⟩ := ih (settleInput job (emitOutput job) t)
    refine ⟨hstore'.trans hstore, htree'.trans htree, first ++ more, ?_, ?_⟩
    · rw [List.foldl_cons, hmore, hfirst, List.append_assoc]
    · exact List.forall_mem_append.mpr ⟨hnames, hnames'⟩

lemma compileUnits_spec {inputs : List Text} {f : UnitFailure}
    (h : Steady job (inputs.filter (· ≠ standardInput)) (s.tree.compileFile job.options) here
      s.store s.tree)
    (hprint : job.print = false)
    (hrun : s.compileUnits job (emitOutput job) inputs = (s', .ok failed))
    (hfailed : (u, f) ∈ failed) (hu : u ≠ standardInput)
    (hothers : ∀ v ∈ inputs.erase u, v ≠ standardInput → job.place here v ≠ job.place here u) :
    u ∈ inputs.filter (· ≠ standardInput) ∧ Emitted.LeftBy f (s.tree.compileFile job.options u)
      (job.emitted s.store s.tree u) (job.emitted s'.store s'.tree u) := by
  obtain ⟨hstore, htree, more, hmore, hnames⟩ :=
    foldl_settleInput job (inputs.filter (· = standardInput)) (s, [])
  rw [compileUnits] at hrun
  generalize (inputs.filter (· = standardInput)).foldl
    (fun t _ => settleInput job (emitOutput job) t) (s, []) = t at hstore htree hmore hrun
  obtain ⟨s₁, failed₁⟩ := t
  simp only at hstore htree hmore hrun
  split at hrun
  · cases hrun
  · rename_i s₂ failed₂ hfiles
    cases hrun
    have hmem : (u, f) ∈ failed₂ := by
      rcases List.mem_append.mp hfailed with hmem | hmem
      · rw [hmore] at hmem
        exact absurd (hnames _ hmem) hu
      · exact hmem
    rw [← hstore, ← htree] at h ⊢
    refine compileFiles_spec h hprint ?_ hfiles u f hmem ?_
    · intro v hv
      exact ⟨hv, by simpa using (List.mem_filter.mp hv).2⟩
    · intro v hv
      rw [List.erase_filter] at hv
      obtain ⟨hv, hfile⟩ := List.mem_filter.mp hv
      exact hothers v hv (by simpa using hfile)

/-! ### Opening the store -/

/-- Opening the store adds an empty database at most, which is in the place of no artifact. -/
lemma openStore_spec {opened : Session} (hstore : s.store = none)
    (hopen : s.openStore job = .ok opened)
    (hdatabase : ∀ x l, opened.store = some (.tables x) → x.location = some l →
      ∀ v ∈ units, job.place s.tree.here v ≠ l) :
    s.tree.Extends opened.tree ∧
      (∀ k, opened.tree.get? k = some .directory → s.tree.get? k = some .directory) ∧
      (∀ x, opened.store = some x → x.Clear job units s.tree.here opened.tree) ∧
      ∀ u ∈ units, job.emitted opened.store opened.tree u = job.emitted opened.store s.tree u := by
  have hsame : ∀ x : Option Store,
      (∀ y, x = some y → y.Clear job units s.tree.here s.tree) →
      s.tree.Extends s.tree ∧
      (∀ k, s.tree.get? k = some .directory → s.tree.get? k = some .directory) ∧
      (∀ y, x = some y → y.Clear job units s.tree.here s.tree) ∧
      ∀ u ∈ units, job.emitted x s.tree u = job.emitted x s.tree u :=
    fun x hx => ⟨.refl _, fun _ hk => hk, hx, fun _ _ => rfl⟩
  rw [openStore] at hopen
  split_ifs at hopen with hoff
  · cases hopen
    exact hsame s.store (by simp [hstore])
  · split at hopen
    · rename_i x tree hx
      cases hopen
      rw [Store.openFor] at hx
      split_ifs at hx with htables hfiles
      · obtain ⟨⟨ts, tree'⟩, hts, hpair⟩ := Result.map_eq_ok.mp hx
        cases hpair
        have hplaces := fun l => hdatabase ts l rfl
        rcases TableStore.openAt_cases hts with
          ⟨-, rfl, rfl⟩ | ⟨-, l, -, rfl, ⟨hdb, rfl⟩ | ⟨hother, hl, rfl⟩⟩
        · refine hsame _ ?_
          rintro y ⟨⟩ l ⟨⟩
        · refine hsame _ ?_
          rintro y ⟨⟩ l ⟨⟩
          exact ⟨hdb, hplaces l rfl⟩
        · have hne := FileTree.ne_nil_of_get hl
          have hput := FileTree.get_put (t := s.tree) hne (.database {})
          refine ⟨FileTree.extends_put hne (.inr hl), ?_, ?_, ?_⟩
          · intro k hk
            rw [hput] at hk
            split_ifs at hk
            · cases hk
            · exact hk
          · rintro y ⟨⟩ l' ⟨⟩
            exact ⟨⟨{}, by rw [hput, if_pos rfl]⟩, hplaces l rfl⟩
          · intro u hu
            refine Emitted.ext ?_ ?_
            · change (s.tree.put l _).get? (job.place s.tree.here u) = s.tree.get? _
              rw [hput, if_neg (hplaces l rfl u hu)]
            · -- A file that is not a database has no rows, like the empty database in its place.
              simp only [Job.emitted, Option.map_some, Store.about, TableStore.tables, hput,
                if_true]
      · split at hx
        · cases hx
          refine hsame _ ?_
          rintro y ⟨⟩
          rfl
        · cases hx
    · cases hopen

/-- What has been opened on a sound file tree is steady: the directories of units that compile are
there, and have been before. -/
lemma steady_openStore {opened : Session} (hsound : s.tree.Sound) (hstore : s.store = none)
    (hopen : s.openStore job = .ok opened)
    (hdatabase : ∀ x l, opened.store = some (.tables x) → x.location = some l →
      ∀ v ∈ units, job.place s.tree.here v ≠ l) :
    Steady job units (opened.tree.compileFile job.options) s.tree.here opened.store
      opened.tree := by
  obtain ⟨hmore, hdirectory, hclear, -⟩ := openStore_spec hstore hopen hdatabase
  refine ⟨hmore.here, hclear, hmore.rooted (hsound.rooted hsound.here), ?_⟩
  intro hdir v o hv
  have hhome := directory_of_compileFile hv
  rw [hmore.here] at hhome
  rw [homeOf, if_pos (by simpa using hdir)]
  exact hmore.rooted (hsound.rooted (hdirectory _ hhome))

end Session

/-- What a failed unit leaves behind. Take a build on a sound file tree in which some units fail,
and a failed unit other than standard input whose artifact is that of no other input; the database
is in the place of no artifact. The unit's manifest is as it was before the build. Its artifact is
so too unless the manifest could not be saved: then it is the new one. -/
theorem failed_unit_leaves_output {s opened after : Session} {job : Job}
    {arguments inputs : List Text} {failed : Session.FailedUnits} {u : Text} {f : UnitFailure}
    (hsound : s.tree.Sound) (hstore : s.store = none) (hprint : job.print = false)
    (hinputs : Session.expandInputs s.tree arguments = .ok inputs)
    (hopen : s.openStore job = .ok opened)
    (hrun : opened.compileUnits job (Session.emitOutput job) inputs = (after, .ok failed))
    (hfailed : (u, f) ∈ failed) (hu : u ≠ standardInput)
    (hothers : ∀ v ∈ inputs.erase u, v ≠ standardInput →
      job.place s.tree.here v ≠ job.place s.tree.here u)
    (hdatabase : ∀ x l, opened.store = some (.tables x) → x.location = some l →
      ∀ v ∈ inputs, v ≠ standardInput → job.place s.tree.here v ≠ l) :
    s.build job arguments = (after.closeStore, some (.stated (Text.ofNat failed.length ++ " of "
      ++ Text.ofNat inputs.length ++ " units failed"))) ∧
    (job.emitted after.store after.tree u).manifest =
      (job.emitted opened.store s.tree u).manifest ∧
    (f.isInSaving = false →
      (job.emitted after.store after.tree u).artifact =
        (job.emitted opened.store s.tree u).artifact) ∧
    (f.isInSaving = true → ∃ o, opened.tree.compileFile job.options u = .ok o ∧
      (job.emitted after.store after.tree u).artifact = some (.file o.artifact)) := by
  have hplaces : ∀ x l, opened.store = some (.tables x) → x.location = some l →
      ∀ v ∈ inputs.filter (· ≠ standardInput), job.place s.tree.here v ≠ l := by
    intro x l hx hl v hv
    obtain ⟨hv, hfile⟩ := List.mem_filter.mp hv
    exact hdatabase x l hx hl v hv (by simpa using hfile)
  have hsteady := Session.steady_openStore hsound hstore hopen hplaces
  obtain ⟨-, -, -, hopened⟩ := Session.openStore_spec hstore hopen hplaces
  obtain ⟨hmem, hmanifest, hartifact, hwritten⟩ :=
    Session.compileUnits_spec hsteady hprint hrun hfailed hu hothers
  rw [hopened u hmem] at hmanifest hartifact
  refine ⟨?_, hmanifest, hartifact, hwritten⟩
  have hsome : ¬ failed.isEmpty = true := by
    rw [List.isEmpty_iff]
    exact List.ne_nil_of_mem hfailed
  simp only [Session.build, hinputs, hprint, hopen, Session.compileInputs, hrun, if_neg hsome,
    Bool.false_eq_true, if_false]

/-- A build that is not interrupted, with all settings as they are by default. -/
def plainJob : Job :=
  { settings := {}, options := {}, threshold := .quiet, now := ⟨0⟩, interrupted := fun _ => false }

/-- The program that exports the number 1. -/
def oneProgram : Text :=
  "\x7b\"type\":\"Program\",\"body\":[\x7b\"type\":\"ExportDefaultDeclaration\",\"declaration\":"
    ++ "\x7b\"type\":\"Literal\",\"raw\":\"1\"\x7d\x7d]\x7d"

/-- A unit that compiles, and a broken one with the output of an earlier build. -/
def staleTree : FileTree :=
  { entries := [(["a.json"], .file oneProgram), (["b.json"], .file "\x7b\x7d"),
      (["b.formula"], .file "=0\n"), (["b.exports.json"], .file "\x7b\x7d")] }

/-- The build on this tree once the store is open. -/
def staleSession : Session := { tree := staleTree, store := some (.files ⟨.json, []⟩) }

/-- The broken unit, and what is wrong with it. -/
def brokenUnits : Session.FailedUnits :=
  [("b.json", .diagnostic ((Fault.badTree .untypedNode).report.inFile "b.json"))]

theorem broken_unit_leaves_output :
    ∃ opened after,
      Session.openStore { tree := staleTree } plainJob = .ok opened ∧
      opened.compileUnits plainJob (Session.emitOutput plainJob) ["a.json", "b.json"] =
        (after, .ok brokenUnits) ∧
      plainJob.emitted after.store after.tree "b.json" =
        ⟨some (.file "=0\n"), some (.file (some (.file "\x7b\x7d")))⟩ := by
  have hopen : Session.openStore { tree := staleTree } plainJob = .ok staleSession := rfl
  have hresult : (staleSession.compileUnits plainJob (Session.emitOutput plainJob)
      ["a.json", "b.json"]).2.toOption = some brokenUnits := by
    decide +kernel
  rcases hrun : staleSession.compileUnits plainJob (Session.emitOutput plainJob)
    ["a.json", "b.json"] with ⟨after, result⟩
  rw [hrun] at hresult
  cases result with
  | error f => cases hresult
  | ok failed =>
    obtain rfl : failed = brokenUnits := Option.some.inj hresult
    have hinputs : Session.expandInputs staleTree ["a.json", "b.json"] =
        .ok ["a.json", "b.json"] := rfl
    have hothers : ∀ v ∈ (["a.json", "b.json"] : List Text).erase "b.json", v ≠ standardInput →
        plainJob.place staleTree.here v ≠ plainJob.place staleTree.here "b.json" := by decide
    obtain ⟨-, hmanifest, hartifact, -⟩ := failed_unit_leaves_output (by decide) rfl rfl hinputs
      hopen hrun List.mem_cons_self (by decide) hothers (by rintro x l ⟨⟩)
    exact ⟨_, after, hopen, hrun, Emitted.ext (hartifact rfl) hmanifest⟩

/-- A unit that compiles, with a directory in the place of its manifest. -/
def crowdedTree : FileTree :=
  { entries := [(["a.json"], .file oneProgram), (["a.exports.json"], .directory)] }

/-- A manifest that cannot be saved leaves an artifact that was not there before. -/
theorem unsaved_manifest_leaves_artifact :
    crowdedTree.get? ["a.formula"] = none ∧
      (Session.build { tree := crowdedTree } plainJob ["a.json"]).2 =
        some (.stated "1 of 1 units failed") ∧
      (Session.build { tree := crowdedTree } plainJob ["a.json"]).1.tree.get? ["a.formula"] =
        some (.file "=1\n") := by
  decide +kernel

end SheetFormula
