import SheetFormula.Proofs.CommandLine.Handling

/-!
# Units with the same artifact

The artifact and the manifest of a unit are named for the unit without its extension, in the unit's
directory or in one for all units. So units of different directories may go to the same files, as
may units that differ in their extensions only. In a build without failure the last of them wins.
-/

namespace SheetFormula

open SheetFormula.Path

/-! ### Places that units share -/

namespace Job

variable {job : Job} {here : Location} {u v : Text} {x : FileStore}

/-- Artifacts are in the same place if they are in one directory, for units of the same name. -/
lemma place_eq_place_iff :
    job.place here u = job.place here v ↔
      homeOf job.settings.outDir here u = homeOf job.settings.outDir here v ∧
        lastPart (stem u) = lastPart (stem v) := by
  rw [place_eq, place_eq]
  constructor
  · intro heq
    obtain ⟨hhome, hname⟩ := List.append_singleton_inj.mp heq
    exact ⟨hhome, List.append_cancel_right hname⟩
  · rintro ⟨hhome, hname⟩
    rw [hhome, hname]

/-- Units share their manifests just if they share their artifacts. -/
lemma manifest_place_eq_iff (hdir : x.outDir = job.settings.outDir) :
    x.place here u = x.place here v ↔ job.place here u = job.place here v := by
  constructor
  · intro heq
    by_contra hne
    exact manifest_ne_of_place_ne hdir hne heq
  · intro heq
    obtain ⟨hhome, hname⟩ := place_eq_place_iff.mp heq
    rw [FileStore.place_eq, FileStore.place_eq, hdir, hhome, hname]

end Job

/-! ### Output that has been written -/

/-- The files of a store that keeps manifests in files. -/
def Store.files? : Store → Option FileStore
  | files s => some s
  | tables _ => none

lemma Store.bind_files_eq_some {store : Option Store} {x : FileStore} :
    store.bind files? = some x ↔ store = some (.files x) := by
  rcases store with _ | y | y <;> simp [files?]

lemma Store.files_save {x x' : Store} {t t' : FileTree} {canceled : Bool} {now : Instant}
    {unit : Text} {manifest : Entries} {failure : Option Failure}
    (h : x.save t canceled now unit manifest = ((x', t'), failure)) : x'.files? = x.files? := by
  cases x with
  | files s =>
    rw [save] at h
    split_ifs at h
    · cases h
      rfl
    · cases h
      rfl
  | tables s =>
    cases h
    rfl

/-- What is found of a unit is the output of a compiled one, its manifest included if manifests are
in files. -/
structure Emitted.Holds (files : Option FileStore) (o : Output) (e : Emitted) : Prop where
  artifact : e.artifact = some (.file o.artifact)
  manifest : ∀ x, files = some x → ∃ content, o.manifest.encode x.format = .ok content ∧
    e.manifest = some (.file (some (.file content)))

/-- A manifest that has been saved is found in its place. -/
lemma FileStore.get_of_save {x : FileStore} {t t' : FileTree} {unit : Text} {manifest : Entries}
    (h : x.save t unit manifest = (t', none)) :
    ∃ content, manifest.encode x.format = .ok content ∧
      t'.get? (x.place t.here unit) = some (.file content) := by
  rcases save_cases h with ⟨hfails, -⟩ | ⟨-, mid, content, hencode, -, -, hget, rfl⟩
  · exact absurd rfl hfails
  · refine ⟨content, hencode, ?_⟩
    rw [FileTree.get_put (FileTree.ne_nil_of_get hget), if_pos rfl]

namespace Session

variable {job : Job} {units : List Text} {compile : Text → CompileResult} {here : Location}
  {s s' after : Session} {u v : Text} {o : Output}

/-- A manifest is saved where there is a store, and the store stays of its kind. -/
lemma saveManifest_eq_none {manifest : Entries} (h : s.saveManifest job v manifest = (s', none)) :
    s'.store.bind Store.files? = s.store.bind Store.files? ∧
      ∀ x, s.store.bind Store.files? = some x → ∃ content, manifest.encode x.format = .ok content ∧
        s'.tree.get? (x.place s.tree.here v) = some (.file content) := by
  rw [saveManifest] at h
  cases hstore : s.store with
  | none =>
    rw [hstore] at h
    cases h
    rw [hstore]
    exact ⟨rfl, by simp⟩
  | some y =>
    rw [hstore] at h
    rcases hy : y.save s.tree (s.isCanceled job) job.now v manifest with ⟨⟨y', t'⟩, _ | f⟩
    · simp only [hy] at h
      cases h
      refine ⟨Store.files_save hy, fun x hx => ?_⟩
      cases y with
      | files y =>
        cases hx
        rw [Store.save] at hy
        split_ifs at hy
        · cases hy
        · rcases hsave : x.save s.tree v manifest with ⟨t'', failure⟩
          simp only [hsave] at hy
          cases hy
          exact FileStore.get_of_save hsave
      | tables y => cases hx
    · simp only [hy] at h
      cases h

/-- Output that is written without failure: first the artifact, and then the manifest. -/
lemma writeOutput_eq_none (hmode : o.mode = job.options.mode)
    (h : s.writeOutput job v o = (s', none)) :
    ∃ (made : FileTree) (s₁ : Session), s.tree.makeDirectory
        (dir (artifactPath job.settings.outDir v job.options.mode.suffix)) = .ok made ∧
      made.get? (job.place s.tree.here v) ≠ some .directory ∧ s₁.store = s.store ∧
      s₁.tree = made.put (job.place s.tree.here v) (.file o.artifact) ∧
      s₁.saveManifest job v o.manifest = (s', none) := by
  rw [writeOutput, hmode] at h
  simp only at h
  split at h
  · cases h
  · rename_i made hmake
    split at h
    · cases h
    · rename_i last hlast
      obtain ⟨l, hlocate, hget, rfl⟩ := FileTree.write_eq_ok.mp hlast
      obtain ⟨-, -, rfl⟩ := FileTree.locate_eq_ok.mp hlocate
      rw [(FileTree.extends_makeDirectory hmake).here] at hget h
      refine ⟨made, _, hmake, hget, ?_, ?_, h⟩
      · rfl
      · rfl

end Session

namespace Steady

variable {job : Job} {units : List Text} {compile : Text → CompileResult} {here : Location}
  {s s' : Session} {u v : Text} {o : Output}

/-- Output that is written without failure is found afterwards. -/
lemma holds_writeOutput (h : Steady job units compile here s.store s.tree) (hv : v ∈ units)
    (hcompiled : compile v = .ok o) (hmode : o.mode = job.options.mode)
    (hwrite : s.writeOutput job v o = (s', none)) :
    s'.store.bind Store.files? = s.store.bind Store.files? ∧
      (job.emitted s'.store s'.tree v).Holds (s.store.bind Store.files?) o := by
  obtain rfl := h.start
  obtain ⟨made, s₁, hmake, hget, hstore, htree, hsave⟩ := Session.writeOutput_eq_none hmode hwrite
  obtain ⟨hmade, -⟩ :=
    h.makeDirectory job.options.mode.ending hcompiled (FileTree.reached_of_ok hmake)
  obtain ⟨hput, hwritten, -⟩ := hmade.put_artifact hv hget o.artifact
  rw [← hstore, ← htree] at hput hwritten
  obtain ⟨hsteady, hartifact, -, -⟩ := saveManifest hput hcompiled hsave
  obtain ⟨hfiles, hmanifest⟩ := Session.saveManifest_eq_none hsave
  rw [hstore] at hfiles hmanifest
  refine ⟨hfiles, ?_, fun x hx => ?_⟩
  · rw [hartifact v hv, hwritten, if_pos rfl]
  · obtain ⟨content, hencode, hcontent⟩ := hmanifest x hx
    refine ⟨content, hencode, ?_⟩
    rw [hput.start, ← hsteady.start] at hcontent
    simp only [Job.emitted, Store.bind_files_eq_some.mp (hfiles.trans hx), Option.map_some,
      Store.about, hcontent]

/-- Units with the same artifact have the same output. -/
lemma holds_of_place_eq {store : Option Store} {t : FileTree} {files : Option FileStore}
    (h : Steady job units compile here store t) (hfiles : store.bind Store.files? = files)
    (hplace : job.place here u = job.place here v)
    (hholds : (job.emitted store t v).Holds files o) : (job.emitted store t u).Holds files o := by
  obtain rfl := h.start
  refine ⟨?_, fun x hx => ?_⟩
  · simpa only [Job.emitted, hplace] using hholds.artifact
  · obtain ⟨content, hencode, hcontent⟩ := hholds.manifest x hx
    refine ⟨content, hencode, ?_⟩
    have hstore := Store.bind_files_eq_some.mp (hfiles.trans hx)
    have hsame := (Job.manifest_place_eq_iff (h.clear _ hstore)).mpr hplace
    rw [← hcontent]
    simp only [Job.emitted, hstore, Option.map_some, Store.about, hsame]

/-- Where the output of a compiled unit is found. -/
lemma get_of_holds {store : Option Store} {t : FileTree}
    (h : Steady job units compile here store t)
    (hholds : (job.emitted store t u).Holds (store.bind Store.files?) o) :
    t.get? (job.place here u) = some (.file o.artifact) ∧
      ∀ x, store = some (.files x) → ∃ content, o.manifest.encode x.format = .ok content ∧
        t.get? (x.place here u) = some (.file content) := by
  obtain rfl := h.start
  refine ⟨hholds.artifact, fun x hx => ?_⟩
  obtain ⟨content, hencode, hcontent⟩ := hholds.manifest x (Store.bind_files_eq_some.mpr hx)
  refine ⟨content, hencode, ?_⟩
  simpa only [Job.emitted, hx, Option.map_some, Store.about, Option.some.injEq,
    Held.file.injEq] using hcontent

end Steady

/-! ### Units that are written in order -/

namespace Session

variable {job : Job} {units : List Text} {here : Location} {t : FileTree} {s after : Session}
  {u : Text} {x : Handling} {hs : List Handling}

lemma Handles.written (h : Handles job (emitOutput job) s x after) (hprint : job.print = false)
    (hfile : x.path ≠ standardInput) (hok : x.failure? = none) :
    ∃ o, x.result = .ok o ∧ s.writeOutput job x.path o = (after, none) := by
  cases h with
  | rejected => cases hok
  | @emitted s' path o answer hemit =>
    cases answer with
    | none =>
      have hpath : path ≠ standardInput := hfile
      rw [emitOutput, if_neg (by simp [hprint, hpath])] at hemit
      exact ⟨o, rfl, hemit⟩
    | some f => cases hok

/-- After units have been handled without failure, the output of a unit is that of the last one with
the same artifact, or as it was if there is none. -/
lemma HandlesAll.last_written (h : HandlesAll job (emitOutput job) (ofTree job t) s hs after)
    (hsteady : Steady job units (t.compileFile job.options) here s.store s.tree)
    (hprint : job.print = false)
    (hfiles : ∀ x ∈ hs, x.path ∈ units ∧ x.path ≠ standardInput)
    (hok : ∀ x ∈ hs, x.failure? = none) (hu : u ∈ units) :
    Steady job units (t.compileFile job.options) here after.store after.tree ∧
      after.store.bind Store.files? = s.store.bind Store.files? ∧
      ((∀ x ∈ hs, job.place here x.path ≠ job.place here u) ∧
          job.emitted after.store after.tree u = job.emitted s.store s.tree u ∨
        ∃ before x later o, hs = before ++ x :: later ∧
          job.place here x.path = job.place here u ∧
          (∀ y ∈ later, job.place here y.path ≠ job.place here u) ∧ x.result = .ok o ∧
          (job.emitted after.store after.tree u).Holds (s.store.bind Store.files?) o) := by
  induction h with
  | nil s => exact ⟨hsteady, rfl, .inl ⟨by simp, rfl⟩⟩
  | @cons s s₁ s₂ s₃ x rest hfrom hfirst _ ih =>
    obtain ⟨⟨hx, hfile⟩, hfiles⟩ := List.forall_mem_cons.mp hfiles
    obtain ⟨hxok, hok⟩ := List.forall_mem_cons.mp hok
    obtain ⟨rfl, hresult⟩ := Prod.mk.inj hfrom
    obtain ⟨o, ho, hwrite⟩ := hfirst.written hprint hfile hxok
    rw [ho] at hresult
    have hmode := mode_of_compileFile hresult
    obtain ⟨hsteady₂, hothers, -⟩ := hsteady.writeOutput hx hresult hmode hwrite
    obtain ⟨hstore₂, hholds⟩ := hsteady.holds_writeOutput hx hresult hmode hwrite
    obtain ⟨hsteady₃, hstore₃, hrest⟩ := ih hsteady₂ hfiles hok
    refine ⟨hsteady₃, hstore₃.trans hstore₂, ?_⟩
    rcases hrest with ⟨hnone, hsame⟩ | ⟨before, y, later, o', rfl, hplace, hlater, hy, hholds'⟩
    · by_cases hplace : job.place here x.path = job.place here u
      · refine .inr ⟨[], x, rest, o, rfl, hplace, hnone, ho, ?_⟩
        rw [hsame]
        exact hsteady₂.holds_of_place_eq hstore₂ hplace.symm hholds
      · refine .inl ⟨List.forall_mem_cons.mpr ⟨hplace, hnone⟩, ?_⟩
        rw [hsame]
        exact hothers u hu (Ne.symm hplace)
    · rw [hstore₂] at hholds'
      exact .inr ⟨x :: before, y, later, o', rfl, hplace, hlater, hy, hholds'⟩

/-- What comes from standard input goes to no file. -/
lemma HandlesAll.of_input (h : HandlesAll job (emitOutput job) (ofInput job) s hs after)
    (hpaths : ∀ x ∈ hs, x.path = standardInput) :
    after.tree = s.tree ∧ after.store = s.store := by
  induction h with
  | nil s => exact ⟨rfl, rfl⟩
  | @cons s s₁ s₂ s₃ x rest hfrom hfirst _ ih =>
    obtain ⟨hx, hpaths⟩ := List.forall_mem_cons.mp hpaths
    obtain ⟨rfl, -⟩ := Prod.mk.inj hfrom
    obtain ⟨htree, hstore⟩ := ih hpaths
    have hstep : s₂.tree = s.tree ∧ s₂.store = s.store := by
      cases hfirst with
      | @rejected path f => cases f <;> exact ⟨rfl, rfl⟩
      | emitted hemit =>
        obtain rfl : _ = standardInput := hx
        rw [emitOutput, if_pos (by simp)] at hemit
        cases hemit
        exact ⟨rfl, rfl⟩
    exact ⟨htree.trans hstep.1, hstore.trans hstep.2⟩

/-- Compiling inputs without failure leaves the output of the last unit with some artifact. -/
lemma compileInputs_last_written {inputs : List Text} (hprint : job.print = false)
    (hsteady : Steady job (inputs.filter (· ≠ standardInput)) (s.tree.compileFile job.options) here
      s.store s.tree)
    (hrun : s.compileInputs job (emitOutput job) inputs = (after, none))
    (hu : u ∈ inputs.filter (· ≠ standardInput)) :
    Steady job (inputs.filter (· ≠ standardInput)) (s.tree.compileFile job.options) here
        after.store after.tree ∧
      after.store.bind Store.files? = s.store.bind Store.files? ∧
      ∃ before v later o, inputs.filter (· ≠ standardInput) = before ++ v :: later ∧
        job.place here v = job.place here u ∧ (∀ w ∈ later, job.place here w ≠ job.place here u) ∧
        s.tree.compileFile job.options v = .ok o ∧
        (job.emitted after.store after.tree u).Holds (s.store.bind Store.files?) o := by
  have hend := s.mayEnd_compileInputs job (emitOutput job) inputs Nat.one_pos
  rw [hrun] at hend
  rcases account_of_mayEnd hend with ⟨hcanceled, -⟩ | ⟨a, hverdict⟩
  · cases hcanceled
  have hok := a.failures_eq_zero.mp (verdict_eq_none.mp hverdict.symm)
  obtain ⟨-, hok⟩ := List.forall_mem_append.mp hok
  obtain ⟨htree, hstore⟩ := a.first.of_input a.path_of_mem_fromInput
  -- Between standard input and the files, lines are logged and nothing else.
  have hlogged : Alike (a.lines.foldl (fun s l => s.log job l) a.mid) a.mid :=
    Alike.foldl_log ⟨rfl, rfl, rfl⟩ job a.lines []
  have hsecond := a.second
  rw [htree] at hsecond
  generalize a.lines.foldl (fun s l => s.log job l) a.mid = mid at hlogged hsecond
  have hmid : Steady job (inputs.filter (· ≠ standardInput)) (s.tree.compileFile job.options) here
      mid.store mid.tree := by
    rw [hlogged.store, hlogged.tree, hstore, htree]
    exact hsteady
  have hfiles : ∀ x ∈ a.fromFiles,
      x.path ∈ inputs.filter (· ≠ standardInput) ∧ x.path ≠ standardInput := by
    intro x hx
    exact ⟨a.filePaths ▸ List.mem_map_of_mem hx, a.path_of_mem_fromFiles x hx⟩
  obtain ⟨hafter, hkind, hcase⟩ := hsecond.last_written hmid hprint hfiles hok hu
  rw [hlogged.store, hstore] at hkind hcase
  refine ⟨hafter, hkind, ?_⟩
  rw [← a.filePaths] at hu ⊢
  rcases hcase with ⟨hnone, -⟩ | ⟨before, x, later, o, hsplit, hplace, hlater, hx, hholds⟩
  · obtain ⟨x, hx, rfl⟩ := List.mem_map.mp hu
    exact absurd rfl (hnone x hx)
  · refine ⟨before.map Handling.path, x.path, later.map Handling.path, o, ?_, hplace, ?_, ?_,
      hholds⟩
    · rw [hsplit, List.map_append, List.map_cons]
    · exact List.forall_mem_map.mpr hlater
    · rw [← hsecond.result_of_tree x (by simp [hsplit])]
      exact hx

end Session

/-- The last unit keeps its output. Take a build on a sound file tree that ends without failure; the
database is in the place of no artifact. Then the artifact of a unit, and its manifest if manifests
are in files, hold the output of the last unit with the same artifact; this is the unit itself if no
other one has the same artifact. Units have the same artifact just if they have the same manifest,
and just if their files go to one directory and their names without extension are the same. -/
theorem last_unit_keeps_output {s opened after : Session} {job : Job}
    {arguments inputs : List Text} (hsound : s.tree.Sound) (hstore : s.store = none)
    (hprint : job.print = false)
    (hinputs : Session.expandInputs s.tree arguments = .ok inputs)
    (hopen : s.openStore job = .ok opened)
    (hdatabase : ∀ x l, opened.store = some (.tables x) → x.location = some l →
      ∀ v ∈ inputs, v ≠ standardInput → job.place s.tree.here v ≠ l)
    (hrun : s.build job arguments = (after, none)) :
    let files := inputs.filter (· ≠ standardInput)
    let place := job.place s.tree.here
    (∀ u ∈ files, ∃ before v later o, files = before ++ v :: later ∧ place v = place u ∧
      (∀ w ∈ later, place w ≠ place u) ∧ ((∀ w ∈ files, place w = place u → w = u) → v = u) ∧
      opened.tree.compileFile job.options v = .ok o ∧
      after.tree.get? (place u) = some (.file o.artifact) ∧
      ∀ x, opened.store = some (.files x) → ∃ content, o.manifest.encode x.format = .ok content ∧
        after.tree.get? (x.place s.tree.here u) = some (.file content)) ∧
    (∀ x, opened.store = some (.files x) → ∀ u v,
      x.place s.tree.here u = x.place s.tree.here v ↔ place u = place v) ∧
    (∀ u v, place u = place v ↔
      homeOf job.settings.outDir s.tree.here u = homeOf job.settings.outDir s.tree.here v ∧
        lastPart (stem u) = lastPart (stem v)) := by
  intro files place
  have hplaces : ∀ x l, opened.store = some (.tables x) → x.location = some l →
      ∀ v ∈ files, place v ≠ l := by
    intro x l hx hl v hv
    obtain ⟨hv, hfile⟩ := List.mem_filter.mp hv
    exact hdatabase x l hx hl v hv (by simpa using hfile)
  have hsteady := Session.steady_openStore hsound hstore hopen hplaces
  refine ⟨?_, ?_, fun u v => Job.place_eq_place_iff⟩
  · intro u hu
    rcases hinner : opened.compileInputs job (Session.emitOutput job) inputs with ⟨last, failure⟩
    simp only [Session.build, hinputs, hprint, hopen, hinner, Bool.false_eq_true, if_false] at hrun
    obtain ⟨rfl, rfl⟩ := Prod.mk.inj hrun
    obtain ⟨hlast, hkind, before, v, later, o, hsplit, hplace, hlater, hv, hholds⟩ :=
      Session.compileInputs_last_written hprint hsteady hinner hu
    rw [← hkind] at hholds
    obtain ⟨hartifact, hmanifest⟩ := hlast.get_of_holds hholds
    have hmem : v ∈ files := by simp [files, hsplit]
    refine ⟨before, v, later, o, hsplit, hplace, hlater, fun hown => hown v hmem hplace, hv,
      hartifact, fun x hx => ?_⟩
    rw [← Store.bind_files_eq_some, ← hkind, Store.bind_files_eq_some] at hx
    exact hmanifest x hx
  · intro x hx u v
    exact Job.manifest_place_eq_iff (hsteady.clear _ hx)

/-- What is in a directory: units of the same name in two subdirectories, in one of them with two
spellings of the extension. -/
def clashing : List (Location × Entry) :=
  [(["a"], .directory), (["a", "x.JSON"], .file twoProgram), (["a", "x.json"], .file oneProgram),
    (["b"], .directory), (["b", "x.json"], .file twoProgram)]

def clashTree : FileTree :=
  { entries := (["src"], .directory) :: clashing.map (Prod.map (List.cons "src") id) }

def clashingUnits : List Text := ["src/a/x.JSON", "src/a/x.json", "src/b/x.json"]

/-- A build that writes to one directory. -/
def gatheringJob : Job := { plainJob with settings := { outDir := "dist" } }

lemma expandInputs_clashTree : Session.expandInputs clashTree ["src"] = .ok clashingUnits := by
  have hunits : clashTree.unitsBelow "src" ["src"] = clashingUnits := by decide
  have hunit : Session.unitsOf clashTree "src" = .ok clashingUnits := by
    rw [← hunits]
    rfl
  simp [Session.expandInputs, hunit]

lemma build_clashTree (job : Job) :
    Session.build { tree := clashTree } job ["src"] =
      Session.build { tree := clashTree } job clashingUnits := by
  have hsame : Session.expandInputs clashTree clashingUnits = .ok clashingUnits := rfl
  simp only [Session.build, expandInputs_clashTree, hsame]

/-- The three units have one place, and what stays there is the text of the last one. -/
theorem clashing_units_keep_last :
    ∃ opened after o,
      Session.openStore { tree := clashTree } gatheringJob = .ok opened ∧
      Session.build { tree := clashTree } gatheringJob ["src"] = (after, none) ∧
      (∀ u ∈ clashingUnits,
        gatheringJob.place clashTree.here u = (["dist", "x.formula"] : Location)) ∧
      opened.tree.compileFile {} "src/b/x.json" = .ok o ∧ o.artifact = "=2\n" ∧
      after.tree.get? ["dist", "x.formula"] = some (.file "=2\n") := by
  have hopen : Session.openStore { tree := clashTree } gatheringJob =
      .ok { tree := clashTree, store := some (.files ⟨.json, "dist"⟩) } := rfl
  have hplace : ∀ u ∈ clashingUnits,
      gatheringJob.place clashTree.here u = (["dist", "x.formula"] : Location) := by decide
  have hnone : (Session.build { tree := clashTree } gatheringJob ["src"]).2 = none := by
    rw [build_clashTree]
    decide +kernel
  rcases hrun : Session.build { tree := clashTree } gatheringJob ["src"] with ⟨after, failure⟩
  rw [hrun] at hnone
  obtain rfl : failure = none := hnone
  obtain ⟨hkept, -⟩ := last_unit_keeps_output (by decide) rfl rfl expandInputs_clashTree hopen
    (by rintro x l ⟨⟩) hrun
  obtain ⟨before, v, later, o, hsplit, -, hlater, -, hv, hartifact, -⟩ :=
    hkept "src/a/x.json" (by decide)
  have hsplit : clashingUnits = before ++ v :: later := hsplit
  -- No unit comes later, for it would have the same place.
  obtain rfl : later = [] := by
    refine List.eq_nil_iff_forall_not_mem.mpr fun w hw => hlater w hw ?_
    have hmem : w ∈ clashingUnits := by simp [hsplit, hw]
    exact (hplace w hmem).trans (hplace "src/a/x.json" (by decide)).symm
  obtain rfl : v = "src/b/x.json" := by
    have hlast := congrArg List.getLast? hsplit
    rw [List.getLast?_concat] at hlast
    exact (Option.some.inj hlast).symm
  have htext : (clashTree.compileFile {} "src/b/x.json").toOption.map Output.artifact =
      some ("=2\n" : Text) := by decide +kernel
  have hv : clashTree.compileFile {} "src/b/x.json" = .ok o := hv
  rw [hv] at htext
  have ho : o.artifact = "=2\n" := Option.some.inj htext
  exact ⟨_, after, o, hopen, rfl, hplace, hv, ho, ho ▸ hartifact⟩

/-- Builds without failure that lose the output of a unit. With one directory for all artifacts it
is overwritten by that of a unit in another directory, and without by that of a unit in the same
one. -/
theorem shared_artifact_overwritten :
    Session.expandInputs clashTree ["src"] = .ok clashingUnits ∧
    (clashTree.compileFile {} "src/a/x.json").toOption.map Output.artifact =
      some ("=1\n" : Text) ∧
    gatheringJob.place clashTree.here "src/a/x.json" = (["dist", "x.formula"] : Location) ∧
    (Session.build { tree := clashTree } gatheringJob ["src"]).2 = none ∧
    (Session.build { tree := clashTree } gatheringJob ["src"]).1.tree.get? ["dist", "x.formula"] =
      some (.file "=2\n") ∧
    (clashTree.compileFile {} "src/a/x.JSON").toOption.map Output.artifact =
      some ("=2\n" : Text) ∧
    plainJob.place clashTree.here "src/a/x.JSON" = (["src", "a", "x.formula"] : Location) ∧
    (Session.build { tree := clashTree } plainJob ["src"]).2 = none ∧
    (Session.build { tree := clashTree } plainJob ["src"]).1.tree.get? ["src", "a", "x.formula"] =
      some (.file "=1\n") := by
  simp only [build_clashTree]
  refine ⟨expandInputs_clashTree, ?_⟩
  decide +kernel

end SheetFormula
