import SheetFormula.Proofs.CleanPath
import SheetFormula.Proofs.CommandLine.Reporting
import SheetFormula.Proofs.Discovery

/-!
# What a run writes

Checking units, compiling an expression and printing output leave all files and directories alone.
A build makes directories for the output of the inputs that compile, and writes artifacts and
manifests there. None of these is in the place of a unit.
-/

namespace SheetFormula

open SheetFormula.Path Session

/-! ### Where output goes -/

namespace Job

/-- The files that manifests are kept in, if they are. -/
def manifestFiles? (job : Job) : Option FileStore :=
  if job.settings.manifest.enabled && job.settings.manifest.store != "sqlite" then
    (Format.parse job.settings.manifest.format).toOption.map (⟨·, job.settings.outDir⟩)
  else none

/-- The location of the database file that manifests are kept in, if they are. -/
def database? (job : Job) (t : FileTree) : Option Location :=
  if job.settings.manifest.enabled && job.settings.manifest.store == "sqlite"
      && job.settings.manifest.database != ":memory:" then
    (t.locate (TableStore.fileName job.settings.manifest.database)).toOption
  else none

/-- The places of a unit's artifact and of its manifest file. -/
def outputs (job : Job) (here : Location) (unit : Text) : List Location :=
  job.place here unit :: (job.manifestFiles?.map fun x => x.place here unit).toList

/-- The directory of a unit's output, and those on the way to it. -/
def wayTo (job : Job) (here : Location) (unit : Text) : List Location :=
  chain here (dir (artifactPath job.settings.outDir unit job.options.mode.suffix))

/-- The inputs whose output goes to files: those from files that compile. -/
def compiled (job : Job) (t : FileTree) (inputs : List Text) : List Text :=
  inputs.filter fun u => u ≠ standardInput && (t.compileFile job.options u).toBool

/-- Where a build may write files. -/
def targets (job : Job) (t : FileTree) (inputs : List Text) : List Location :=
  (job.database? t).toList ++ (job.compiled t inputs).flatMap (job.outputs t.here)

/-- Where a build may make directories. -/
def directories (job : Job) (t : FileTree) (inputs : List Text) : List Location :=
  (job.compiled t inputs).flatMap (job.wayTo t.here)

variable {job : Job} {t : FileTree} {inputs : List Text} {u : Text} {here : Location}

lemma mem_compiled :
    u ∈ job.compiled t inputs ↔
      u ∈ inputs ∧ u ≠ standardInput ∧ ∃ o, t.compileFile job.options u = .ok o := by
  rw [compiled, List.mem_filter]
  cases t.compileFile job.options u <;> simp [Except.toBool]

lemma place_mem_targets (hu : u ∈ job.compiled t inputs) :
    job.place t.here u ∈ job.targets t inputs :=
  List.mem_append_right _ (List.mem_flatMap.mpr ⟨u, hu, List.mem_cons_self⟩)

lemma manifest_mem_targets {x : FileStore} (hx : job.manifestFiles? = some x)
    (hu : u ∈ job.compiled t inputs) : x.place t.here u ∈ job.targets t inputs := by
  refine List.mem_append_right _ (List.mem_flatMap.mpr ⟨u, hu, List.mem_cons_of_mem _ ?_⟩)
  simp [hx]

lemma wayTo_subset (hu : u ∈ job.compiled t inputs) :
    job.wayTo t.here u ⊆ job.directories t inputs :=
  fun _ hk => List.mem_flatMap.mpr ⟨u, hu, hk⟩

lemma outDir_of_manifestFiles {x : FileStore} (hx : job.manifestFiles? = some x) :
    x.outDir = job.settings.outDir := by
  rw [manifestFiles?] at hx
  split_ifs at hx
  obtain ⟨format, -, rfl⟩ := Option.map_eq_some_iff.mp hx
  rfl

/-- Manifests are kept in files, or not at all. -/
def FilesOnly (job : Job) : Prop :=
  job.settings.manifest.enabled = false ∨ job.settings.manifest.store = "file"

lemma FilesOnly.database_eq_none (h : job.FilesOnly) (t : FileTree) : job.database? t = none := by
  have hother : (("file" : Text) == "sqlite") = false := rfl
  rw [database?, if_neg]
  rcases h with hoff | hfile
  · simp [hoff]
  · simp [hfile, hother]

/-- No output is in the place of a unit. -/
lemma noUnit_of_mem_outputs {l : Location} (h : l ∈ job.outputs here u) : FileTree.NoUnit l := by
  rcases List.mem_cons.mp h with rfl | h
  · exact ⟨_, _, job.place_eq here u, job.options.mode.isUnitName_append_suffix _,
      job.options.mode.ending.proper _, slash_not_mem_name job.options.mode.ending u⟩
  · obtain ⟨x, -, rfl⟩ : ∃ x, job.manifestFiles? = some x ∧ x.place here u = l := by simpa using h
    exact ⟨_, _, x.place_eq here u, x.format.isUnitName_append_suffix _, x.format.ending.proper _,
      slash_not_mem_name x.format.ending u⟩

lemma FilesOnly.noUnit {l : Location} (h : job.FilesOnly) (hl : l ∈ job.targets t inputs) :
    FileTree.NoUnit l := by
  rw [targets, h.database_eq_none] at hl
  obtain ⟨u, -, hl⟩ := List.mem_flatMap.mp hl
  exact noUnit_of_mem_outputs hl

end Job

/-- The files of a unit go to one directory, as text. -/
lemma dir_artifactPath {suffix : Text} (hsuffix : Ending suffix) (outDir unit : Text) :
    dir (artifactPath outDir unit suffix) =
      if outDir.isEmpty then clean (front unit) else clean outDir := by
  by_cases hdir : outDir = []
  · rw [if_pos (by simpa using hdir), artifactPath, if_pos (by simpa using hdir)]
    change clean (front (stem unit ++ suffix)) = _
    rw [front_append hsuffix.noSlash, front_stem]
  · rw [if_neg (by simpa using hdir), artifactPath_of_ne_nil hsuffix outDir unit hdir]
    exact dir_clean hdir (hsuffix.proper _) (slash_not_mem_name hsuffix unit)

/-! ### What a build keeps -/

/-- A store as the settings of a job have it; a database file is there. -/
def Store.Fits (job : Job) (t t' : FileTree) : Store → Prop
  | .files x => job.manifestFiles? = some x
  | .tables x => ∀ l, x.location = some l →
    job.database? t = some l ∧ ∃ e, e ≠ .directory ∧ t'.get? l = some e

/-- Files and store in the course of a build that starts on a tree. -/
structure InBuild (job : Job) (t : FileTree) (inputs : List Text) (t' : FileTree)
    (store : Option Store) : Prop where
  grows : t.Grows (job.directories t inputs) (job.targets t inputs) t'
  fits : ∀ x, store = some x → x.Fits job t t'

namespace InBuild

variable {job : Job} {t t' t'' : FileTree} {inputs : List Text} {store : Option Store} {u : Text}
  {o : Output} {s s' : Session}

lemma step (h : InBuild job t inputs t' store)
    (hgrows : t'.Grows (job.directories t inputs) (job.targets t inputs) t'') :
    InBuild job t inputs t'' store := by
  refine ⟨h.grows.trans hgrows, fun x hx => ?_⟩
  have hfits := h.fits x hx
  cases x with
  | files x => exact hfits
  | tables x =>
    intro l hl
    obtain ⟨hdatabase, e, he, hfile⟩ := hfits l hl
    exact ⟨hdatabase, hgrows.file he hfile⟩

lemma here (h : InBuild job t inputs t' store) : t'.here = t.here := h.grows.toExtends.here

/-- The directory of a unit's output is made, or some of those on the way to it. -/
lemma makeDirectory {suffix : Text} (h : InBuild job t inputs t' store)
    (hu : u ∈ job.compiled t inputs) (hsuffix : Ending suffix)
    (hmade : FileTree.reached
      (t'.makeDirectory (dir (artifactPath job.settings.outDir u suffix))) = t'') :
    InBuild job t inputs t'' store := by
  rw [← hmade]
  refine h.step (FileTree.grows_makeDirectory _ ?_)
  have hdir : dir (artifactPath job.settings.outDir u suffix) =
      dir (artifactPath job.settings.outDir u job.options.mode.suffix) := by
    rw [dir_artifactPath hsuffix, dir_artifactPath job.options.mode.ending]
  rw [hdir, h.here]
  exact Job.wayTo_subset hu

lemma put {l : Location} {e : Entry} (h : InBuild job t inputs t' store)
    (hl : l ∈ job.targets t inputs) (hplace : t'.get? l ≠ some .directory)
    (he : e ≠ .directory) : InBuild job t inputs (t'.put l e) store :=
  h.step (.write .refl hl hplace he)

lemma save {x x' : Store} {canceled : Bool} {now : Instant} {manifest : Entries}
    {failure : Option Failure} (h : InBuild job t inputs t' (some x))
    (hu : u ∈ job.compiled t inputs)
    (hsave : x.save t' canceled now u manifest = ((x', t''), failure)) :
    InBuild job t inputs t'' (some x') := by
  have hfits := h.fits x rfl
  cases x with
  | files x =>
    rw [Store.save] at hsave
    split_ifs at hsave
    · cases hsave
      exact h
    · rcases hfile : x.save t' u manifest with ⟨last, failure'⟩
      simp only [hfile] at hsave
      cases hsave
      have hmade : ∀ mid, FileTree.reached (t'.makeDirectory (dir (x.path u))) = mid →
          InBuild job t inputs mid (some (.files x)) := by
        intro mid hmid
        rw [FileStore.path, Job.outDir_of_manifestFiles hfits] at hmid
        exact h.makeDirectory hu x.format.ending hmid
      rcases FileStore.save_cases hfile with
        ⟨-, rfl | hmid⟩ | ⟨-, mid, content, -, hmake, -, hplace, rfl⟩
      · exact h
      · exact hmade _ hmid
      · refine (hmade mid (FileTree.reached_of_ok hmake)).put ?_ hplace (by simp)
        rw [h.here]
        exact Job.manifest_mem_targets hfits hu
  | tables x =>
    rcases htable : x.save t' canceled now u manifest with ⟨⟨y, last⟩, failure'⟩
    simp only [Store.save, htable] at hsave
    cases hsave
    rw [TableStore.save] at htable
    split at htable
    · cases htable
      exact h
    · split at htable
      · rename_i db _
        rw [TableStore.replace] at htable
        cases hl : x.location with
        | none =>
          rw [hl] at htable
          cases htable
          refine ⟨h.grows, ?_⟩
          rintro y ⟨⟩ l ⟨⟩
        | some l =>
          rw [hl] at htable
          cases htable
          obtain ⟨hdatabase, e, he, hthere⟩ := hfits l hl
          refine h.put ?_ (by simp [hthere, he]) (by simp)
          exact List.mem_append_left _ (by simp [hdatabase])
      · cases htable
        exact h

lemma saveManifest {manifest : Entries} (h : InBuild job t inputs s.tree s.store)
    (hu : u ∈ job.compiled t inputs) :
    InBuild job t inputs (s.saveManifest job u manifest).1.tree
      (s.saveManifest job u manifest).1.store := by
  rw [Session.saveManifest]
  cases hstore : s.store with
  | none => exact h
  | some x =>
    rw [hstore] at h
    rcases hx : x.save s.tree (s.isCanceled job) job.now u manifest with ⟨⟨x', t'⟩, failure⟩
    have hsaved := h.save hu hx
    simp only [hx]
    cases failure <;> exact hsaved

/-- The output of a unit that compiles is written where it should. -/
lemma writeOutput (h : InBuild job t inputs s.tree s.store) (hu : u ∈ job.compiled t inputs)
    (hmode : o.mode = job.options.mode) :
    InBuild job t inputs (s.writeOutput job u o).1.tree (s.writeOutput job u o).1.store := by
  rw [Session.writeOutput, hmode]
  cases hmake : s.tree.makeDirectory
    (dir (artifactPath job.settings.outDir u job.options.mode.suffix)) with
  | error x =>
    obtain ⟨e, made⟩ := x
    exact h.makeDirectory hu job.options.mode.ending (FileTree.reached_of_error hmake)
  | ok made =>
    have hmade := h.makeDirectory hu job.options.mode.ending (FileTree.reached_of_ok hmake)
    cases hwrite : made.write (artifactPath job.settings.outDir u job.options.mode.suffix)
      o.artifact with
    | error e =>
      simp only [hwrite]
      exact hmade
    | ok written =>
      have hplace : resolve made.here
          (artifactPath job.settings.outDir u job.options.mode.suffix) ∈ job.targets t inputs := by
        rw [hmade.here]
        exact Job.place_mem_targets hu
      simp only [hwrite]
      apply saveManifest _ hu
      exact hmade.step (FileTree.grows_write hwrite hplace)

end InBuild

/-! ### Opening the store -/

namespace FileTree

variable {t t' : FileTree} {p : Text} {options : CompileOptions}

/-- What is read at a path depends on what stands there only. -/
lemma read_congr {l : Location} (hl : t.locate p = .ok l) (hl' : t'.locate p = .ok l)
    (hget : t'.get? l = t.get? l) : t'.read p = t.read p := by
  have hfind : t'.find p = t.find p := by
    simp only [find, hl, hl', bind, Except.bind, hget]
  rw [read, read, hfind]

lemma compileFile_congr (hread : t'.read p = t.read p) :
    t'.compileFile options p = t.compileFile options p := by
  rw [compileFile, compileFile, decodeFile, decodeFile, hread]

/-- A unit that compiles can be followed to a file. -/
lemma locate_of_compileFile {o : Output} (h : t.compileFile options p = .ok o) :
    ∃ l content, t.locate p = .ok l ∧ t.read p = .ok content ∧
      ∃ program, Tree.decode content = .ok program := by
  rw [compileFile, Result.bind_eq_ok] at h
  obtain ⟨program, h, -⟩ := h
  rw [decodeFile, Result.bind_eq_ok] at h
  obtain ⟨content, hread, hdecode⟩ := h
  rw [Result.mapError_eq_ok] at hread hdecode
  cases hlocate : t.locate p with
  | error fault =>
    rw [read, find, hlocate] at hread
    cases hread
  | ok l => exact ⟨l, content, rfl, hread, program, hdecode⟩

/-- A database is not a unit. -/
lemma compileFile_of_put {l : Location} {db : Database} {o : Output}
    (hl : t.get? l ≠ some .directory)
    (h : (t.put l (.database db)).compileFile options p = .ok o) :
    t.compileFile options p = .ok o := by
  obtain ⟨k, content, hlocate, hread, program, hdecode⟩ := locate_of_compileFile h
  have hget := get_put (t := t) (ne_nil_of_get hl) (.database db)
  have hback : (t.put l (.database db)).Extends t := by
    refine ⟨rfl, fun x hx => ?_⟩
    rw [hget] at hx
    split_ifs at hx
    · cases hx
    · exact hx
  by_cases hk : k = l
  · have hmark : (t.put l (.database db)).read p = .ok Entry.databaseMark := by
      simp only [read, find, hlocate, bind, Except.bind, hget, hk, if_true]
    rw [hmark] at hread
    cases hread
    have hfails : (Tree.decode Entry.databaseMark).toBool = false := by decide +kernel
    rw [hdecode] at hfails
    cases hfails
  · rw [← h]
    refine (compileFile_congr (read_congr (hback.locate hlocate) hlocate ?_)).symm
    rw [hget, if_neg hk]

end FileTree

namespace Session

variable {job : Job} {emit : Emit} {s s₁ after opened : Session} {inputs : List Text} {u : Text}
  {o : Output}

/-- Opening the store puts a database in its place at most. -/
lemma inBuild_openStore (hstore : s.store = none) (hopen : s.openStore job = .ok opened)
    (inputs : List Text) :
    InBuild job s.tree inputs opened.tree opened.store ∧
      ∀ u o, opened.tree.compileFile job.options u = .ok o →
        s.tree.compileFile job.options u = .ok o := by
  rw [openStore] at hopen
  split_ifs at hopen with hoff
  · cases hopen
    exact ⟨⟨.refl, by simp [hstore]⟩, fun _ _ h => h⟩
  · have hon : job.settings.manifest.enabled = true := by simpa using hoff
    split at hopen
    · rename_i x tree hx
      cases hopen
      rw [Store.openFor] at hx
      split_ifs at hx with htables hfiles
      · obtain ⟨⟨ts, tree'⟩, hts, hpair⟩ := Result.map_eq_ok.mp hx
        cases hpair
        rcases TableStore.openAt_cases hts with
          ⟨-, rfl, rfl⟩ | ⟨hfile, l, hlocate, rfl, hcase⟩
        · refine ⟨⟨.refl, ?_⟩, fun _ _ h => h⟩
          rintro y ⟨⟩ l ⟨⟩
        · have hdatabase : job.database? s.tree = some l := by
            simp [Job.database?, hon, htables, hfile, hlocate, Except.toOption]
          rcases hcase with ⟨⟨db, hdb⟩, rfl⟩ | ⟨-, hl, rfl⟩
          · refine ⟨⟨.refl, ?_⟩, fun _ _ h => h⟩
            rintro y ⟨⟩ l' ⟨⟩
            exact ⟨hdatabase, _, by simp, hdb⟩
          · refine ⟨⟨.write .refl ?_ hl (by simp), ?_⟩, fun _ _ => FileTree.compileFile_of_put hl⟩
            · exact List.mem_append_left _ (by simp [hdatabase])
            · rintro y ⟨⟩ l' ⟨⟩
              refine ⟨hdatabase, .database {}, by simp, ?_⟩
              exact (FileTree.get_put (FileTree.ne_nil_of_get hl) _ l).trans (if_pos rfl)
      · split at hx
        · rename_i format hformat
          cases hx
          refine ⟨⟨.refl, ?_⟩, fun _ _ h => h⟩
          rintro y ⟨⟩
          simp [Store.Fits, Job.manifestFiles?, hon, htables, hformat, Except.toOption]
        · cases hx
    · cases hopen

/-! ### What every way to run keeps -/

/-- What holds of files and store, and is kept when output is emitted, is kept when inputs are
handled. -/
lemma HandlesAll.invariant {P : FileTree → Option Store → Prop} {source : Source}
    {hs : List Handling} (h : HandlesAll job emit source s hs after)
    (hsource : ∀ s p, (source s p).1.tree = s.tree ∧ (source s p).1.store = s.store)
    (hemit : ∀ x ∈ hs, ∀ o, x.result = .ok o → ∀ s₁ : Session, P s₁.tree s₁.store →
      P (emit s₁ x.path o).1.tree (emit s₁ x.path o).1.store)
    (hstart : P s.tree s.store) : P after.tree after.store := by
  induction h with
  | nil s => exact hstart
  | @cons s s₁ s₂ s₃ x rest hfrom hfirst _ ih =>
    obtain ⟨hx, hrest⟩ := List.forall_mem_cons.mp hemit
    obtain ⟨htree, hstore⟩ := hsource s x.path
    rw [hfrom] at htree hstore
    apply ih hrest
    cases hfirst with
    | @rejected path f =>
      rw [← htree, ← hstore] at hstart
      cases f <;> exact hstart
    | @emitted s' path o answer hemitted =>
      have hstep := hx o rfl s₁ (by rwa [htree, hstore])
      have hpair : (emit s₁ path o).1 = s' := by rw [hemitted]
      change P (emit s₁ path o).1.tree (emit s₁ path o).1.store at hstep
      rw [hpair] at hstep
      rcases answer with _ | f <;> exact hstep

/-- What holds of files and store at the start, and is kept when the output of an input that
compiles is emitted, holds at the end of every run. -/
lemma MayEnd.invariant {P : FileTree → Option Store → Prop} {workers : Nat}
    {failure : Option Failure} (hend : s.MayEnd job emit inputs workers (after, failure))
    (hinput : ∀ (s₁ : Session) o, (emit s₁ standardInput o).1.tree = s₁.tree ∧
      (emit s₁ standardInput o).1.store = s₁.store)
    (hemit : ∀ u ∈ inputs, u ≠ standardInput → ∀ o, s.tree.compileFile job.options u = .ok o →
      ∀ s₁ : Session, P s₁.tree s₁.store → P (emit s₁ u o).1.tree (emit s₁ u o).1.store)
    (hstart : P s.tree s.store) : P after.tree after.store := by
  have hfirst : ∀ {hs : List Handling} {mid : Session}, (∀ x ∈ hs, x.path = standardInput) →
      HandlesAll job emit (ofInput job) s hs mid → mid.tree = s.tree ∧ mid.store = s.store := by
    intro hs mid hpaths h
    refine h.invariant (P := fun t store => t = s.tree ∧ store = s.store)
      (fun _ _ => ⟨rfl, rfl⟩) ?_ ⟨rfl, rfl⟩
    intro x hx o _ s₁ hsame
    rw [hpaths x hx, (hinput s₁ o).1, (hinput s₁ o).2]
    exact hsame
  have hlogged : ∀ (lines : Log) (mid : Session), mid.tree = s.tree ∧ mid.store = s.store →
      P (lines.foldl (fun s l => s.log job l) mid).tree
        (lines.foldl (fun s l => s.log job l) mid).store := by
    intro lines mid hmid
    have halike : Alike (lines.foldl (fun s l => s.log job l) mid) mid :=
      Alike.foldl_log ⟨rfl, rfl, rfl⟩ job lines []
    rw [halike.tree, halike.store, hmid.1, hmid.2]
    exact hstart
  obtain ⟨pool, hends, houtcome⟩ := hend
  -- A run that is cancelled has handled standard input, and none of the files.
  cases hfailure : pool.failure with
  | none =>
    obtain ⟨a, -⟩ := exists_account hends hfailure
    rw [← houtcome] at a
    have hmid := hfirst a.path_of_mem_fromInput a.first
    refine a.second.invariant (fun _ _ => ⟨rfl, rfl⟩) ?_ (hlogged a.lines a.mid hmid)
    intro x hx o hresult
    rw [a.second.result_of_tree x hx, hmid.1] at hresult
    have hmem : x.path ∈ inputs.filter (· ≠ standardInput) :=
      a.filePaths ▸ List.mem_map_of_mem hx
    exact hemit x.path (List.mem_filter.mp hmem).1 (a.path_of_mem_fromFiles x hx) o hresult
  | some f =>
    obtain ⟨hs, hpaths, hall, -⟩ := s.afterInput_handles job emit inputs
    have hmid := hfirst (fun x hx => by
      have hmem : x.path ∈ inputs.filter (· = standardInput) := hpaths ▸ List.mem_map_of_mem hx
      simpa using (List.mem_filter.mp hmem).2) hall
    have hresult : (s.filePlan job emit inputs workers).result pool =
        ((s.filePlan job emit inputs workers).state pool.effects, some f) :=
      Prod.ext rfl hfailure
    rw [hresult] at houtcome
    obtain ⟨rfl, -⟩ := Prod.mk.inj houtcome
    have hstate : ((s.filePlan job emit inputs workers).state pool.effects).1 =
        (Batch.linesIn pool.effects).foldl (fun s l => s.log job l)
          (s.afterInput job emit inputs).1 :=
      congrArg Prod.fst (state_collecting _ workers pool.effects)
    change P ((s.filePlan job emit inputs workers).state pool.effects).1.tree
      ((s.filePlan job emit inputs workers).state pool.effects).1.store
    rw [hstate]
    exact hlogged _ _ hmid

/-- A run that only prints leaves the files alone. -/
lemma MayEnd.tree_of_prints {workers : Nat} {failure : Option Failure}
    {shown : Text → Output → Text} (hprints : Prints emit shown)
    (hend : s.MayEnd job emit inputs workers (after, failure)) : after.tree = s.tree := by
  refine hend.invariant (P := fun t _ => t = s.tree) ?_ ?_ rfl
  · intro s₁ o
    rw [hprints]
    exact ⟨rfl, rfl⟩
  · intro u _ _ o _ s₁ hsame
    rw [hprints]
    exact hsame

/-- A run that writes output does so where it should. -/
lemma MayEnd.inBuild {workers : Nat} {failure : Option Failure} (hstore : s.store = none)
    (hprint : job.print = false) (hopen : s.openStore job = .ok opened)
    (hend : opened.MayEnd job (emitOutput job) inputs workers (after, failure)) :
    InBuild job s.tree inputs after.tree after.store := by
  obtain ⟨hopened, hcompiles⟩ := inBuild_openStore hstore hopen inputs
  refine hend.invariant (P := InBuild job s.tree inputs) ?_ ?_ hopened
  · intro s₁ o
    rw [emitOutput, if_pos (by simp)]
    exact ⟨rfl, rfl⟩
  · intro u hu hfile o ho s₁ h
    have hcompiled : u ∈ job.compiled s.tree inputs :=
      Job.mem_compiled.mpr ⟨hu, hfile, o, hcompiles u o ho⟩
    rw [emitOutput, if_neg (by simp [hprint, hfile])]
    exact h.writeOutput hcompiled (mode_of_compileFile ho)

lemma tree_expr (s : Session) (job : Job) (arguments : List Text) :
    (s.expr job arguments).1.tree = s.tree := by
  have hreport : ∀ (s : Session) (f : UnitFailure), (s.report job f).tree = s.tree := by
    intro s f
    cases f <;> rfl
  unfold expr
  simp only
  split
  · rfl
  · rename_i s₁ content hcontent
    have htree : s₁.tree = s.tree := by
      split at hcontent
      · cases hcontent
        rfl
      · split_ifs at hcontent
        · cases hcontent
          rfl
        · split at hcontent
          · cases hcontent
            rfl
          · cases hcontent
      · cases hcontent
    split
    · exact htree
    · exact (hreport s₁ _).trans htree

end Session

/-! ### Tasks -/

/-- What a run is to do. -/
structure Task where
  command : Command
  flags : Flags
  job : Job
  arguments : List Text

/-- What arguments ask for, if they can be understood, ask for more than help, and the settings are
in order. -/
def Machine.task? (m : Machine) (t : FileTree) (arguments : List Text) : Option Task :=
  match Flags.parse (Command.ofArguments arguments).2 with
  | .help | .wrong _ => none
  | .flags f given =>
    if f.help || f.version then none
    else
      match Settings.ofRun m t f with
      | .error _ => none
      | .ok settings =>
        match settings.compileOptions with
        | .error _ => none
        | .ok (options, threshold) =>
          some ⟨(Command.ofArguments arguments).1, f, m.job f settings options threshold, given⟩

/-- Whether arguments ask for output to be printed. -/
def Flags.Parsed.prints : Parsed → Bool
  | .flags f _ => f.print
  | .help | .wrong _ => false

namespace Session

variable {s : Session} {m : Machine} {arguments : List Text} {task : Task}

/-- A run without a task changes no files. -/
lemma tree_run_of_no_task (h : m.task? s.tree arguments = none) :
    (s.run m arguments).1.tree = s.tree := by
  rw [Machine.task?] at h
  rw [run]
  simp only
  split
  · rfl
  · rfl
  · rename_i f given hflags
    rw [hflags] at h
    simp only at h
    split_ifs with hhelp hversion
    · rfl
    · rfl
    · rw [if_neg (by simp [hhelp, hversion])] at h
      rw [runCommand]
      split
      · rfl
      · rename_i settings hsettings
        simp only [hsettings] at h
        simp only
        split
        · rfl
        · rename_i options threshold hoptions
          simp only [hoptions] at h
          cases h

/-- A run with a task does what the task says, after the warnings. -/
lemma run_of_task (h : m.task? s.tree arguments = some task) :
    s.run m arguments = (s.warn (task.job.settings.warningText m.processors)).perform task.job
        task.arguments task.command ∧
      task.command = (Command.ofArguments arguments).1 ∧
      Flags.parse (Command.ofArguments arguments).2 = .flags task.flags task.arguments ∧
      task.job.print = task.flags.print := by
  rw [Machine.task?] at h
  rw [run]
  split at h
  · cases h
  · cases h
  · rename_i f given hflags
    split_ifs at h with hhelp
    rw [Bool.or_eq_true, not_or] at hhelp
    split at h
    · cases h
    · rename_i settings hsettings
      split at h
      · cases h
      · rename_i options threshold hoptions
        cases h
        refine ⟨?_, rfl, hflags, rfl⟩
        simp only [hflags, if_neg hhelp.1, if_neg hhelp.2, runCommand, hsettings, hoptions]
        rfl

/-- Checking units and compiling an expression leave the files alone, as does printing output. -/
lemma tree_perform (hcommand : task.command = .check ∨ task.command = .expr ∨
    task.command = .build ∧ task.job.print = true) :
    (s.perform task.job task.arguments task.command).1.tree = s.tree := by
  have hprinted : ∀ {emit : Emit} {shown : Text → Output → Text} (inputs : List Text),
      Prints emit shown → (s.compileInputs task.job emit inputs).1.tree = s.tree :=
    fun inputs hprints =>
      (s.mayEnd_compileInputs task.job _ inputs Nat.one_pos).tree_of_prints hprints
  rcases hcommand with hcommand | hcommand | ⟨hcommand, hprint⟩
  · have hprints : Prints (task.command.emit task.job) task.command.shown :=
      Command.prints_emit (.inl hcommand)
    rw [Command.emit, if_pos hcommand] at hprints
    simp only [perform, hcommand, Prod.map_fst, id, check]
    split
    · rfl
    · exact hprinted _ hprints
  · simp only [perform, hcommand, Prod.map_fst, id]
    exact s.tree_expr task.job task.arguments
  · have hprints : Prints (task.command.emit task.job) task.command.shown :=
      Command.prints_emit (.inr ⟨hcommand, hprint⟩)
    rw [Command.emit, if_neg (by simp [hcommand])] at hprints
    simp only [perform, hcommand, Prod.map_fst, id, build, hprint, if_true]
    split
    · rfl
    · exact hprinted _ hprints

/-- A build that writes files leaves them alone or runs to some end with its store open. -/
lemma tree_build (hbuild : task.command = .build) (hprint : task.job.print = false) :
    (s.perform task.job task.arguments task.command).1.tree = s.tree ∨
      ∃ inputs opened last failure, expandInputs s.tree task.arguments = .ok inputs ∧
        s.openStore task.job = .ok opened ∧
        opened.MayEnd task.job (emitOutput task.job) inputs 1 (last, failure) ∧
        (s.perform task.job task.arguments task.command).1.tree = last.tree := by
  simp only [perform, hbuild, Prod.map_fst, id, build, hprint, Bool.false_eq_true, if_false]
  split
  · exact .inl rfl
  · rename_i inputs hinputs
    split
    · exact .inl rfl
    · rename_i opened hopen
      refine .inr ⟨inputs, opened, _, _, hinputs, hopen,
        opened.mayEnd_compileInputs task.job (emitOutput task.job) inputs Nat.one_pos, rfl⟩

end Session

/-! ### What a build leaves -/

/-- The files in the places of units are the same before and after. -/
def FileTree.KeepsUnits (t t' : FileTree) : Prop :=
  ∀ p, isUnit p = true → ∀ e, e ≠ .directory →
    (t'.get? (resolve t.here p) = some e ↔ t.get? (resolve t.here p) = some e) ∧
      (t.find p = .ok e → t'.find p = .ok e)

/-- What a build of some inputs may leave of a tree: changed where output goes, and with all its
units unless a database is in use. -/
structure Job.Leaves (job : Job) (inputs : List Text) (t t' : FileTree) : Prop where
  changed : t.ChangedOnly (job.directories t inputs) (job.targets t inputs) t'
  units : job.settings.manifest.enabled = false ∨ job.settings.manifest.store = "file" →
    t.KeepsUnits t'

lemma FileTree.Grows.keepsUnits {made written : List Location} {t t' : FileTree}
    (h : t.Grows made written t') (hwritten : ∀ l ∈ written, NoUnit l) : t.KeepsUnits t' := by
  intro p hp e he
  have hget : t'.get? (resolve t.here p) = some e ↔ t.get? (resolve t.here p) = some e := by
    rcases h.changedOnly (resolve t.here p) with hsame | ⟨-, hnone, hmade⟩ | ⟨hl, -, -⟩
    · rw [hsame]
    · rw [hnone, hmade]
      simp [Ne.symm he]
    · exact absurd (hwritten _ hl) (not_noUnit_resolve hp t.here)
  refine ⟨hget, fun hfind => ?_⟩
  rw [find, Result.bind_eq_ok] at hfind ⊢
  obtain ⟨l, hl, hentry⟩ := hfind
  refine ⟨l, h.toExtends.locate hl, ?_⟩
  obtain ⟨-, -, rfl⟩ := locate_eq_ok.mp hl
  have hthere : t.get? (resolve t.here p) = some e := by
    split at hentry
    · cases hentry
      assumption
    · cases hentry
  rw [hget.mpr hthere]

lemma InBuild.leaves {job : Job} {t t' : FileTree} {inputs : List Text} {store : Option Store}
    (h : InBuild job t inputs t' store) : job.Leaves inputs t t' := by
  refine ⟨h.grows.changedOnly, fun hfiles => h.grows.keepsUnits fun l hl => ?_⟩
  exact Job.FilesOnly.noUnit hfiles hl

/-- A run writes output only. Checking units, compiling an expression and printing output leave all
files and directories as they are. If any other build changes something, then this is a directory
where nothing was, on the way to the output of an input that compiles, or a file: the artifact or
the manifest file of such an input, or the database. Unless there is a database, no file in the
place of a unit is changed, made or lost. All this holds however the tasks of the build are
ordered. -/
theorem run_writes_output_only (t : FileTree) (input : Text) (m : Machine) (arguments : List Text) :
    let s : Session := { tree := t, input := input }
    let after := (s.run m arguments).1.tree
    let command := (Command.ofArguments arguments).1
    (command = .check ∨ command = .expr ∨
        command = .build ∧ (Flags.parse (Command.ofArguments arguments).2).prints = true →
      after = t) ∧
    (command = .build → after ≠ t → ∃ task inputs opened,
      m.task? t arguments = some task ∧ task.job.print = false ∧
      expandInputs t task.arguments = .ok inputs ∧
      (s.warn (task.job.settings.warningText m.processors)).openStore task.job = .ok opened ∧
      task.job.Leaves inputs t after ∧
      ∀ workers last failure,
        opened.MayEnd task.job (emitOutput task.job) inputs workers (last, failure) →
          task.job.Leaves inputs t last.tree) := by
  intro s after command
  cases htask : m.task? t arguments with
  | none =>
    have hsame : after = t := tree_run_of_no_task (s := s) htask
    exact ⟨fun _ => hsame, fun _ hchanged => absurd hsame hchanged⟩
  | some task =>
    obtain ⟨hrun, hcommand, hflags, hprint⟩ := run_of_task (s := s) htask
    have hafter : after = ((s.warn (task.job.settings.warningText m.processors)).perform task.job
        task.arguments task.command).1.tree := by
      rw [← hrun]
    constructor
    · intro hcase
      rw [hafter]
      refine tree_perform ?_
      rw [hflags] at hcase
      rw [hcommand, hprint]
      exact hcase
    · intro hbuild hchanged
      have hprints : task.job.print = false := by
        by_contra hprints
        refine hchanged (hafter.trans (tree_perform (.inr (.inr ⟨hcommand.trans hbuild, ?_⟩))))
        simpa using hprints
      rcases tree_build (s := s.warn _) (hcommand.trans hbuild) hprints with
        hsame | ⟨inputs, opened, last, failure, hinputs, hopen, hend, hlast⟩
      · exact absurd (hafter.trans hsame) hchanged
      · have hall : ∀ workers last failure,
            opened.MayEnd task.job (emitOutput task.job) inputs workers (last, failure) →
              task.job.Leaves inputs t last.tree :=
          fun workers last failure hend => (hend.inBuild rfl hprints hopen).leaves
        refine ⟨task, inputs, opened, rfl, hprints, hinputs, hopen, ?_, hall⟩
        rw [hafter, hlast]
        exact hall 1 last failure hend

/-- The arguments of a build that writes to one directory. -/
def gatheringArguments : List Text := ["--out", "dist", "a.json", "b.json"]

def gatheringTask : Task :=
  { command := .build
    flags := { outDir := "dist" }
    job := plainMachine.job { outDir := "dist" } { rootSettings with outDir := "dist" } {}
      (.atLeast .info)
    arguments := ["a.json", "b.json"] }

/-- Where the output of the unit that compiles goes. -/
def gatheredPlaces : List Location := [["dist"], ["dist", "a.formula"], ["dist", "a.exports.json"]]

theorem gathering_writes_output_only :
    let after := (Session.run { tree := staleTree } plainMachine gatheringArguments).1.tree
    after.get? ["dist", "a.formula"] = some (.file "=1\n") ∧
      ∀ l, l ∉ gatheredPlaces → after.get? l = staleTree.get? l := by
  intro after
  have hwritten : after.get? ["dist", "a.formula"] = some (.file "=1\n") := by decide +kernel
  refine ⟨hwritten, fun l hl => ?_⟩
  obtain ⟨-, hbuild⟩ := run_writes_output_only staleTree [] plainMachine gatheringArguments
  have hchanged : after ≠ staleTree := by
    intro hsame
    rw [hsame] at hwritten
    exact absurd hwritten (by decide)
  obtain ⟨task, inputs, opened, htask, -, hinputs, -, hleaves, -⟩ := hbuild rfl hchanged
  have hknown : plainMachine.task? staleTree gatheringArguments = some gatheringTask := rfl
  obtain rfl := Option.some.inj (hknown.symm.trans htask)
  have hfiles : expandInputs staleTree gatheringTask.arguments = .ok ["a.json", "b.json"] := rfl
  obtain rfl := Except.ok.inj (hfiles.symm.trans hinputs)
  have hplaces : gatheringTask.job.directories staleTree ["a.json", "b.json"] ++
      gatheringTask.job.targets staleTree ["a.json", "b.json"] = gatheredPlaces := by
    decide +kernel
  rw [← hplaces, List.mem_append, not_or] at hl
  rcases hleaves.changed l with hsame | ⟨hmade, -⟩ | ⟨htarget, -⟩
  · exact hsame
  · exact absurd hmade hl.1
  · exact absurd htarget hl.2

end SheetFormula
