import SheetFormula.CommandLine.Command
import SheetFormula.Proofs.Artifact
import SheetFormula.Proofs.Store.Runs

/-!
# Emitting the output of a unit

A build writes the artifact of a unit and then saves its manifest, in a file or in tables. Each step
changes the output of the unit only, and a step that fails leaves what it would have changed.
-/

namespace SheetFormula

open SheetFormula.Path

/-! ### The output of a unit -/

/-- What a store holds of a unit: what is in the place of its manifest, or its rows. -/
inductive Held where
  | file (entry : Option Entry)
  | rows (tables : List UnitRow × List ManifestRow)
deriving DecidableEq

/-- What a store holds of a unit. -/
def Store.about (store : Store) (t : FileTree) (unit : Text) : Held :=
  match store with
  | .files s => .file (t.get? (s.place t.here unit))
  | .tables s => .rows ((s.tables t).about unit)

/-- The output of a unit as it is found: its artifact, and its manifest if there is a store. -/
@[ext] structure Emitted where
  artifact : Option Entry
  manifest : Option Held
deriving DecidableEq

namespace Job

def place (job : Job) (here : Location) (unit : Text) : Location :=
  resolve here (artifactPath job.settings.outDir unit job.options.mode.suffix)

def emitted (job : Job) (store : Option Store) (t : FileTree) (unit : Text) : Emitted :=
  ⟨t.get? (job.place t.here unit), store.map (·.about t unit)⟩

variable {job : Job} {here : Location} {u v : Text} {s : FileStore}

lemma place_eq (job : Job) (here : Location) (unit : Text) :
    job.place here unit =
      homeOf job.settings.outDir here unit ++ [lastPart (stem unit) ++ job.options.mode.suffix] :=
  resolve_artifactPath job.options.mode.ending job.settings.outDir here unit

/-- An artifact is never in the place of a manifest. -/
lemma place_ne_manifest (job : Job) (s : FileStore) (here : Location) (u v : Text) :
    job.place here u ≠ s.place here v := by
  intro heq
  rw [place_eq, FileStore.place_eq] at heq
  exact append_suffix_ne _ _ _ _ (List.append_singleton_inj.mp heq).2

/-- Units with different artifacts have different manifests. -/
lemma manifest_ne_of_place_ne (hdir : s.outDir = job.settings.outDir)
    (hne : job.place here u ≠ job.place here v) : s.place here u ≠ s.place here v := by
  intro heq
  apply hne
  rw [FileStore.place_eq, FileStore.place_eq, hdir] at heq
  obtain ⟨hhome, hname⟩ := List.append_singleton_inj.mp heq
  rw [place_eq, place_eq, hhome, List.append_cancel_right hname]

end Job

/-- Whether a unit failed because its manifest could not be saved. -/
def UnitFailure.isInSaving : UnitFailure → Bool
  | .failure (.during activity _) => activity = "saving manifest"
  | _ => false

/-- What a failed unit leaves behind: its manifest as it was, and its artifact as it was or, if the
failure came in saving the manifest, as it has been compiled. -/
structure Emitted.LeftBy (f : UnitFailure) (result : CompileResult) (before after : Emitted) :
    Prop where
  manifest : after.manifest = before.manifest
  artifact : f.isInSaving = false → after.artifact = before.artifact
  written : f.isInSaving = true → ∃ o, result = .ok o ∧ after.artifact = some (.file o.artifact)

/-! ### Places that stay clear of each other -/

/-- A store that stays clear of the artifacts of some units: files go to the directory of the
artifacts, and a database is in the place of none of them. -/
def Store.Clear (job : Job) (units : List Text) (here : Location) (t : FileTree) : Store → Prop
  | .files s => s.outDir = job.settings.outDir
  | .tables s => ∀ l, s.location = some l →
    (∃ db, t.get? l = some (.database db)) ∧ ∀ v ∈ units, job.place here v ≠ l

/-- A store and a file tree in the course of a build that starts from a directory: the store stays
clear of the artifacts, and the directories of the units that have been compiled are there. -/
structure Steady (job : Job) (units : List Text) (compile : Text → CompileResult) (here : Location)
    (store : Option Store) (t : FileTree) : Prop where
  start : t.here = here
  clear : ∀ x, store = some x → x.Clear job units here t
  rooted : t.Rooted here
  home : job.settings.outDir = [] → ∀ v o, compile v = .ok o →
    t.Rooted (homeOf job.settings.outDir here v)

namespace Steady

variable {job : Job} {units : List Text} {compile : Text → CompileResult} {here : Location}
  {store : Option Store} {t t' : FileTree} {u v : Text} {o : Output}

lemma of_extends {store' : Option Store} (h : Steady job units compile here store t)
    (hmore : t.Extends t') (hclear : ∀ x, store' = some x → x.Clear job units here t') :
    Steady job units compile here store' t' := by
  refine ⟨hmore.here.trans h.start, hclear, hmore.rooted h.rooted, ?_⟩
  intro hdir v o hv
  exact hmore.rooted (h.home hdir v o hv)

/-- A tree with more directories, but with the same manifests and the same database. -/
lemma retain (h : Steady job units compile here store t) (hmore : t.Extends t')
    (hfiles : ∀ s : FileStore, s.outDir = job.settings.outDir → ∀ u,
      t'.get? (s.place here u) = t.get? (s.place here u))
    (hdatabase : ∀ l, (∃ db, t.get? l = some (.database db)) →
      (∀ v ∈ units, job.place here v ≠ l) → t'.get? l = t.get? l) :
    Steady job units compile here store t' ∧
      ∀ u, (job.emitted store t' u).manifest = (job.emitted store t u).manifest := by
  obtain rfl := h.start
  refine ⟨h.of_extends hmore ?_, fun u => ?_⟩
  · intro x hx
    have hclear := h.clear x hx
    cases x with
    | files s => exact hclear
    | tables s =>
      intro l hl
      obtain ⟨hdb, hplaces⟩ := hclear l hl
      rw [hdatabase l hdb hplaces]
      exact ⟨hdb, hplaces⟩
  · cases store with
    | none => rfl
    | some x =>
      have hclear := h.clear x rfl
      cases x with
      | files s =>
        simp only [Job.emitted, Option.map_some, Store.about, hmore.here, hfiles s hclear u]
      | tables s =>
        have htables : s.tables t' = s.tables t := by
          rw [TableStore.tables, TableStore.tables]
          cases hl : s.location with
          | none => rfl
          | some l =>
            obtain ⟨hdb, hplaces⟩ := hclear l hl
            simp only [hdatabase l hdb hplaces]
        simp only [Job.emitted, Option.map_some, Store.about, htables]

/-- Making the directory of a file of a compiled unit changes no output, whether or not it fails. -/
lemma makeDirectory {suffix : Text} (h : Steady job units compile here store t)
    (hsuffix : Ending suffix) (hv : compile v = .ok o)
    (hmade : FileTree.reached
      (t.makeDirectory (dir (artifactPath job.settings.outDir v suffix))) = t') :
    Steady job units compile here store t' ∧
      ∀ u, job.emitted store t' u = job.emitted store t u := by
  obtain rfl := h.start
  have hchanged := t.get_reached (dir (artifactPath job.settings.outDir v suffix))
  have hmore : t.Extends t' := hmade ▸ FileTree.extends_reached t _
  have hnames := fun u name => FileTree.get_reached_artifactPath hsuffix h.rooted
    (fun hdir => h.home hdir v o hv) u name
  rw [hmade] at hchanged hnames
  have hfiles : ∀ s : FileStore, s.outDir = job.settings.outDir → ∀ u,
      t'.get? (s.place t.here u) = t.get? (s.place t.here u) := by
    intro s hdir u
    rw [FileStore.place_eq, hdir, hnames]
  have hdatabase : ∀ l, (∃ db, t.get? l = some (.database db)) →
      (∀ v ∈ units, job.place t.here v ≠ l) → t'.get? l = t.get? l := by
    rintro l ⟨db, hl⟩ -
    rcases hchanged l with hsame | ⟨-, hnone, -⟩
    · exact hsame
    · rw [hl] at hnone
      cases hnone
  obtain ⟨hsteady, hmanifest⟩ := h.retain hmore hfiles hdatabase
  have hartifact : ∀ u, (job.emitted store t' u).artifact = (job.emitted store t u).artifact := by
    intro u
    simp only [Job.emitted, hmore.here, Job.place_eq, hnames]
  exact ⟨hsteady, fun u => Emitted.ext (hartifact u) (hmanifest u)⟩

/-- Writing an artifact changes the artifacts in its place and no manifest. -/
lemma put_artifact (h : Steady job units compile here store t) (hv : v ∈ units)
    (hfree : t.get? (job.place here v) ≠ some .directory) (content : Text) :
    Steady job units compile here store (t.put (job.place here v) (.file content)) ∧
      (∀ u, (job.emitted store (t.put (job.place here v) (.file content)) u).artifact =
        if job.place here u = job.place here v then some (.file content)
        else (job.emitted store t u).artifact) ∧
      ∀ u, (job.emitted store (t.put (job.place here v) (.file content)) u).manifest =
        (job.emitted store t u).manifest := by
  obtain rfl := h.start
  have hne := FileTree.ne_nil_of_get hfree
  have hmore := FileTree.extends_put (t := t) (e := .file content) hne (.inr hfree)
  have hget := FileTree.get_put (t := t) hne (.file content)
  have hfiles : ∀ s : FileStore, s.outDir = job.settings.outDir → ∀ u,
      (t.put (job.place t.here v) (.file content)).get? (s.place t.here u) =
        t.get? (s.place t.here u) := by
    intro s _ u
    rw [hget, if_neg (job.place_ne_manifest s t.here v u).symm]
  have hdatabase : ∀ l, (∃ db, t.get? l = some (.database db)) →
      (∀ v ∈ units, job.place t.here v ≠ l) →
        (t.put (job.place t.here v) (.file content)).get? l = t.get? l := by
    intro l _ hplaces
    rw [hget, if_neg (hplaces v hv).symm]
  obtain ⟨hsteady, hmanifest⟩ := h.retain hmore hfiles hdatabase
  exact ⟨hsteady, fun u => hget (job.place t.here u), hmanifest⟩

/-! ### Saving a manifest -/

/-- Saving a manifest in a file changes no artifact, and the manifests in its place only. If it
fails it changes none. -/
lemma save_file {s : FileStore} {manifest : Entries} {failure : Option Failure}
    (h : Steady job units compile here (some (.files s)) t) (hcompiled : compile v = .ok o)
    (hsave : s.save t v manifest = (t', failure)) :
    Steady job units compile here (some (.files s)) t' ∧
      (∀ u, (job.emitted (some (.files s)) t' u).artifact =
        (job.emitted (some (.files s)) t u).artifact) ∧
      ∀ u, failure ≠ none ∨ job.place here u ≠ job.place here v →
        (job.emitted (some (.files s)) t' u).manifest =
          (job.emitted (some (.files s)) t u).manifest := by
  obtain rfl := h.start
  have hdir : s.outDir = job.settings.outDir := h.clear _ rfl
  have hmade : ∀ mid, FileTree.reached (t.makeDirectory (dir (s.path v))) = mid →
      Steady job units compile t.here (some (.files s)) mid ∧
        ∀ u, job.emitted (some (.files s)) mid u = job.emitted (some (.files s)) t u := by
    intro mid hmid
    rw [FileStore.path, hdir] at hmid
    exact h.makeDirectory s.format.ending hcompiled hmid
  rcases FileStore.save_cases hsave with
    ⟨-, rfl | hmid⟩ | ⟨rfl, mid, content, -, hmake, -, hget, rfl⟩
  · exact ⟨h, fun _ => rfl, fun _ _ => rfl⟩
  · obtain ⟨hsteady, hsame⟩ := hmade t' hmid
    exact ⟨hsteady, fun u => by rw [hsame], fun u _ => by rw [hsame]⟩
  · obtain ⟨hsteady, hsame⟩ := hmade mid (FileTree.reached_of_ok hmake)
    have hhere := (FileTree.extends_makeDirectory hmake).here
    have hne := FileTree.ne_nil_of_get hget
    have hput := FileTree.get_put (t := mid) hne (.file content)
    refine ⟨hsteady.of_extends (FileTree.extends_put hne (.inr hget)) ?_, fun u => ?_,
      fun u hu => ?_⟩
    · rintro x ⟨⟩
      exact hdir
    · rw [← hsame u]
      change (mid.put _ _).get? (job.place mid.here u) = _
      rw [hput, hhere, if_neg (job.place_ne_manifest s t.here u v), ← hhere]
      rfl
    · have hother := Job.manifest_ne_of_place_ne hdir (hu.resolve_left fun hnone => hnone rfl)
      rw [← hsame u]
      simp only [Job.emitted, Option.map_some, Store.about, FileTree.here_put, hhere, hput,
        if_neg hother]

/-- Saving a manifest in tables changes no artifact and the rows of no other unit. If it fails it
changes nothing. -/
lemma save_table {s s' : TableStore} {canceled : Bool} {now : Instant} {manifest : Entries}
    {failure : Option Failure} (h : Steady job units compile here (some (.tables s)) t)
    (hsave : s.save t canceled now v manifest = ((s', t'), failure)) :
    Steady job units compile here (some (.tables s')) t' ∧
      (∀ u ∈ units, (job.emitted (some (.tables s')) t' u).artifact =
        (job.emitted (some (.tables s)) t u).artifact) ∧
      ∀ u, failure ≠ none ∨ u ≠ v →
        (job.emitted (some (.tables s')) t' u).manifest =
          (job.emitted (some (.tables s)) t u).manifest := by
  obtain rfl := h.start
  rw [TableStore.save] at hsave
  split at hsave
  · cases hsave
    exact ⟨h, fun _ _ => rfl, fun _ _ => rfl⟩
  · split at hsave
    · rename_i db hdb
      have habout : ∀ u, u ≠ v → db.about u = (s.tables t).about u :=
        fun u hu => Database.about_save hdb hu
      rw [TableStore.replace] at hsave
      cases hl : s.location with
      | none =>
        rw [hl] at hsave
        cases hsave
        refine ⟨⟨rfl, ?_, h.rooted, h.home⟩, fun _ _ => rfl, fun u hu => ?_⟩
        · rintro x ⟨⟩ l ⟨⟩
        · have hu := habout u (hu.resolve_left fun hnone => hnone rfl)
          simp only [Job.emitted, Option.map_some, Store.about, TableStore.tables, hl] at hu ⊢
          rw [hu]
      | some l =>
        rw [hl] at hsave
        cases hsave
        obtain ⟨⟨old, hold⟩, hplaces⟩ := h.clear _ rfl l hl
        have hfree : t.get? l ≠ some .directory := by simp [hold]
        have hne := FileTree.ne_nil_of_get hfree
        have hput := FileTree.get_put (t := t) hne (.database db)
        refine ⟨h.of_extends (FileTree.extends_put hne (.inr hfree)) ?_, fun u hu => ?_,
          fun u hu => ?_⟩
        · rintro x ⟨⟩ l' hl'
          obtain rfl := Option.some.inj (hl.symm.trans hl')
          exact ⟨⟨db, by rw [hput, if_pos rfl]⟩, hplaces⟩
        · change (t.put l _).get? (job.place t.here u) = t.get? (job.place t.here u)
          rw [hput, if_neg (hplaces u hu)]
        · have hu := habout u (hu.resolve_left fun hnone => hnone rfl)
          have hseen : s.tables (t.put l (.database db)) = db := by
            rw [TableStore.tables, hl]
            simp only [hput, if_true]
          simp only [Job.emitted, Option.map_some, Store.about, hseen, hu]
    · cases hsave
      exact ⟨h, fun _ _ => rfl, fun _ _ => rfl⟩

/-- Saving a manifest changes no artifact, and no manifest of a unit with another artifact. If it
fails it changes none. -/
lemma save {x x' : Store} {canceled : Bool} {now : Instant} {manifest : Entries}
    {failure : Option Failure} (h : Steady job units compile here (some x) t)
    (hcompiled : compile v = .ok o)
    (hsave : x.save t canceled now v manifest = ((x', t'), failure)) :
    Steady job units compile here (some x') t' ∧
      (∀ u ∈ units, (job.emitted (some x') t' u).artifact = (job.emitted (some x) t u).artifact) ∧
      ∀ u, failure ≠ none ∨ job.place here u ≠ job.place here v →
        (job.emitted (some x') t' u).manifest = (job.emitted (some x) t u).manifest := by
  cases x with
  | files s =>
    cases canceled with
    | true =>
      cases hsave
      exact ⟨h, fun _ _ => rfl, fun _ _ => rfl⟩
    | false =>
      rcases hfile : s.save t v manifest with ⟨t'', failure'⟩
      simp only [Store.save, hfile] at hsave
      cases hsave
      obtain ⟨hsteady, hartifact, hmanifest⟩ := h.save_file hcompiled hfile
      exact ⟨hsteady, fun u _ => hartifact u, hmanifest⟩
  | tables s =>
    rcases htable : s.save t canceled now v manifest with ⟨⟨s'', t''⟩, failure'⟩
    simp only [Store.save, htable] at hsave
    cases hsave
    obtain ⟨hsteady, hartifact, hmanifest⟩ := h.save_table htable
    refine ⟨hsteady, hartifact, fun u hu => hmanifest u ?_⟩
    rcases hu with hfails | hne
    · exact .inl hfails
    · refine .inr ?_
      rintro rfl
      exact hne rfl

/-! ### Emitting the output of a unit -/

variable {s s' : Session}

lemma saveManifest {manifest : Entries} {failure : Option Failure}
    (h : Steady job units compile here s.store s.tree) (hcompiled : compile v = .ok o)
    (hsave : s.saveManifest job v manifest = (s', failure)) :
    Steady job units compile here s'.store s'.tree ∧
      (∀ u ∈ units, (job.emitted s'.store s'.tree u).artifact =
        (job.emitted s.store s.tree u).artifact) ∧
      (∀ u, failure ≠ none ∨ job.place here u ≠ job.place here v →
        (job.emitted s'.store s'.tree u).manifest = (job.emitted s.store s.tree u).manifest) ∧
      ∀ f, failure = some f → (UnitFailure.failure f).isInSaving = true := by
  rw [Session.saveManifest] at hsave
  cases hstore : s.store with
  | none =>
    rw [hstore] at hsave
    cases hsave
    rw [hstore] at h ⊢
    exact ⟨h, fun _ _ => rfl, fun _ _ => rfl, fun f hf => nomatch hf⟩
  | some x =>
    rw [hstore] at h hsave
    rcases hx : x.save s.tree (s.isCanceled job) job.now v manifest with ⟨⟨x', t'⟩, failure'⟩
    obtain ⟨hsteady, hartifact, hmanifest⟩ := h.save hcompiled hx
    simp only [hx] at hsave
    cases failure' with
    | none =>
      cases hsave
      exact ⟨hsteady, hartifact, hmanifest, fun f hf => nomatch hf⟩
    | some g =>
      cases hsave
      refine ⟨hsteady, hartifact, fun u _ => hmanifest u (.inl (by simp)), ?_⟩
      rintro f ⟨⟩
      rfl

/-- Emitting the output of a unit changes that of no unit with another artifact. If it fails, its
own manifest stays as it was. -/
lemma writeOutput {failure : Option Failure} (h : Steady job units compile here s.store s.tree)
    (hv : v ∈ units) (hcompiled : compile v = .ok o) (hmode : o.mode = job.options.mode)
    (hwrite : s.writeOutput job v o = (s', failure)) :
    Steady job units compile here s'.store s'.tree ∧
      (∀ u ∈ units, job.place here u ≠ job.place here v →
        job.emitted s'.store s'.tree u = job.emitted s.store s.tree u) ∧
      ∀ f, failure = some f → Emitted.LeftBy (.failure f) (.ok o)
        (job.emitted s.store s.tree v) (job.emitted s'.store s'.tree v) := by
  rw [Session.writeOutput, hmode] at hwrite
  simp only at hwrite
  split at hwrite
  · rename_i e mid hmake
    cases hwrite
    obtain ⟨hmid, hsame⟩ :=
      h.makeDirectory job.options.mode.ending hcompiled (FileTree.reached_of_error hmake)
    refine ⟨hmid, fun u _ _ => hsame u, ?_⟩
    rintro f ⟨⟩
    exact ⟨by rw [hsame], fun _ => by rw [hsame], fun hsaving => by cases hsaving⟩
  · rename_i mid hmake
    obtain ⟨hmid, hsame⟩ :=
      h.makeDirectory job.options.mode.ending hcompiled (FileTree.reached_of_ok hmake)
    split at hwrite
    · cases hwrite
      refine ⟨hmid, fun u _ _ => hsame u, ?_⟩
      rintro f ⟨⟩
      exact ⟨by rw [hsame], fun _ => by rw [hsame], fun hsaving => by cases hsaving⟩
    · rename_i last hlast
      obtain ⟨l, hlocate, hget, rfl⟩ := FileTree.write_eq_ok.mp hlast
      have hl : l = job.place here v := by
        obtain ⟨-, -, rfl⟩ := FileTree.locate_eq_ok.mp hlocate
        rw [hmid.start]
        rfl
      subst hl
      obtain ⟨hput, hwritten, hkept⟩ := hmid.put_artifact hv hget o.artifact
      generalize hlog : Session.log _ job _ = s₁ at hwrite
      have hstore : s₁.store = s.store := by
        rw [← hlog]
        rfl
      have htree : s₁.tree = mid.put (job.place here v) (.file o.artifact) := by
        rw [← hlog]
        rfl
      rw [← hstore, ← htree] at hput
      obtain ⟨hsteady, hartifact, hmanifest, hsaving⟩ := saveManifest hput hcompiled hwrite
      rw [hstore, htree] at hartifact hmanifest
      refine ⟨hsteady, fun u hu hne => ?_, fun f hf => ?_⟩
      · refine Emitted.ext ?_ ?_
        · rw [hartifact u hu, hwritten, if_neg hne, hsame]
        · rw [hmanifest u (.inr hne), hkept, hsame]
      · have hinSaving := hsaving f hf
        refine ⟨?_, fun hother => ?_, fun _ => ⟨o, rfl, ?_⟩⟩
        · rw [hmanifest v (.inl (by simp [hf])), hkept, hsame]
        · rw [hinSaving] at hother
          cases hother
        · rw [hartifact v hv, hwritten, if_pos rfl]

end Steady

end SheetFormula
