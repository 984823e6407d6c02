import SheetFormula.Proofs.Artifact
import SheetFormula.Proofs.Entries.Json
import SheetFormula.Proofs.Store.Runs

/-!
# Files and tables answer alike

A store of JSON files and a store of tables give the same answers to saves and loads, as long as the
manifests of different units are different files and the file system does not fail. It does not, if
each manifest could be saved at the start and none of them stands where another needs a directory.
-/

namespace SheetFormula

/-! ### Plain requests -/

/-- A save or a load of one of some units, by a caller who has not given up. What is saved repeats
no name. -/
def Request.IsPlain (units : List Text) : Request → Prop
  | .save canceled _ unit manifest => canceled = false ∧ unit ∈ units ∧ manifest.names.Nodup
  | .load canceled unit => canceled = false ∧ unit ∈ units
  | .list _ | .reopen => False

instance Request.decidableIsPlain (units : List Text) : DecidablePred (Request.IsPlain units)
  | .save canceled _ unit manifest =>
    inferInstanceAs (Decidable (canceled = false ∧ unit ∈ units ∧ manifest.names.Nodup))
  | .load canceled unit => inferInstanceAs (Decidable (canceled = false ∧ unit ∈ units))
  | .list _ | .reopen => inferInstanceAs (Decidable False)

/-- Answers that a caller cannot tell apart: both saves succeed, nothing is stored, or the same
entries are. An absent list of entries counts as an empty one. -/
def Answer.Agrees : Answer → Answer → Prop
  | .saved f, .saved g => f = none ∧ g = none
  | .loaded (.error f), .loaded (.error g) => f.kind = .notStored ∧ g.kind = .notStored
  | .loaded (.ok x), .loaded (.ok y) => x.getD [] = y.getD []
  | _, _ => False

def Archive.answers (a : Archive) : List Request → List Answer
  | [] => []
  | r :: rest => (a.handle r).2 :: (a.handle r).1.answers rest

namespace FileStore

open SheetFormula.Path

/-- The directories that a unit's manifest needs. -/
def needs (s : FileStore) (here : Location) (unit : Text) : List Location :=
  chain here (dir (s.path unit))

/-- The manifest of a unit can be written: the directories can be made, and then the file. -/
def Writable (s : FileStore) (t : FileTree) (unit : Text) : Prop :=
  ∃ t', t.makeDirectory (dir (s.path unit)) = .ok t' ∧
    t'.locate (s.path unit) = .ok (s.place t.here unit) ∧
    t'.get? (s.place t.here unit) ≠ some .directory

/-- The file system does what a request needs: a manifest can be written, and reading one fails only
where there is none. -/
def Unhindered (s : FileStore) (t : FileTree) : Request → Prop
  | .save _ _ unit _ => s.Writable t unit
  | .load _ unit => ∀ e, t.read (s.path unit) = .error e → e.fault = .missing
  | .list _ | .reopen => True

variable {s : FileStore} {t t' : FileTree} {unit other : Text}

/-! ### What a save does to files -/

/-- Making the directory of a manifest makes the directories that the manifest needs. -/
lemma get_makeDirectory_path (h : t.makeDirectory (dir (s.path unit)) = .ok t') (k : Location) :
    t'.get? k = if k ∈ s.needs t.here unit then some .directory else t.get? k :=
  FileTree.get_makeDirectory h k

/-- A save to a writable place changes the tree there and on the way only. -/
lemma save_of_writable (hformat : s.format = .json) (h : s.Writable t unit) (manifest : Entries) :
    ∃ t', s.save t unit manifest = (t', none) ∧ t.Extends t' ∧
      t'.locate (s.path unit) = .ok (s.place t.here unit) ∧
      t'.get? (s.place t.here unit) = some (.file manifest.json) ∧
      ∀ k, k ≠ s.place t.here unit →
        t'.get? k = if k ∈ s.needs t.here unit then some .directory else t.get? k := by
  obtain ⟨t', hmake, hlocate, hget⟩ := h
  have hne := FileTree.ne_nil_of_get hget
  have hput : t'.Extends (t'.put (s.place t.here unit) (.file manifest.json)) :=
    FileTree.extends_put hne (.inr hget)
  have hencode : manifest.encode s.format = .ok manifest.json := by
    rw [hformat]
    rfl
  have hwrite : t'.write (s.path unit) manifest.json =
      .ok (t'.put (s.place t.here unit) (.file manifest.json)) :=
    FileTree.write_eq_ok.mpr ⟨_, hlocate, hget, rfl⟩
  refine ⟨t'.put (s.place t.here unit) (.file manifest.json), ?_,
    (FileTree.extends_makeDirectory hmake).trans hput, hput.locate hlocate, ?_, ?_⟩
  · simp only [save, hencode, hmake, hwrite]
  · rw [FileTree.get_put hne, if_pos rfl]
  · intro k hk
    rw [FileTree.get_put hne, if_neg hk, get_makeDirectory_path hmake]

lemma writable_of_save (h : (s.save t unit []).2 = none) : s.Writable t unit := by
  have hsave : s.save t unit [] = ((s.save t unit []).1, (s.save t unit []).2) := rfl
  rcases save_cases hsave with ⟨hfails, -⟩ | ⟨-, mid, content, -, hmake, hlocate, hget, -⟩
  · exact absurd h hfails
  · exact ⟨mid, hmake, hlocate, hget⟩

/-- The file of a manifest is none of the directories that it needs. -/
lemma Writable.not_mem_needs (h : s.Writable t unit) :
    s.place t.here unit ∉ s.needs t.here unit := by
  obtain ⟨t', hmake, -, hget⟩ := h
  intro hmem
  rw [get_makeDirectory_path hmake, if_pos hmem] at hget
  exact hget rfl

/-! ### Files that hold what a map says -/

/-- The manifests of different units are different files. -/
def Apart (s : FileStore) (here : Location) (units : List Text) : Prop :=
  ∀ u ∈ units, ∀ v ∈ units, u ≠ v → s.place here u ≠ s.place here v

/-- The files of some units hold what a map says. Where nothing has been saved there is no file,
though another manifest may have needed a directory there. -/
structure Keeps (s : FileStore) (units : List Text) (t : FileTree) (m : Saves) : Prop where
  unsaved : ∀ u ∈ units, m u = none →
    t.get? (s.place t.here u) = none ∨ t.get? (s.place t.here u) = some .directory
  saved : ∀ u ∈ units, ∀ x, m u = some x → t.locate (s.path u) = .ok (s.place t.here u) ∧
    t.get? (s.place t.here u) = some (.file x.manifest.json)

variable {units : List Text} {m : Saves}

/-- A save writes the file of its unit and leaves the files of the others. -/
lemma Keeps.save (h : s.Keeps units t m) (hapart : s.Apart t.here units)
    (hformat : s.format = .json) (hunit : unit ∈ units) (hwritable : s.Writable t unit)
    (compiledAt : Text) (manifest : Entries) :
    ∃ t', s.save t unit manifest = (t', none) ∧ t'.here = t.here ∧
      s.Keeps units t' (Function.update m unit (some ⟨compiledAt, manifest⟩)) := by
  obtain ⟨t', hsave, hextends, hlocate, hfile, hothers⟩ :=
    save_of_writable hformat hwritable manifest
  have hhere := hextends.here
  -- A file that stands where a directory is needed would have made the save fail.
  have hkept : ∀ u ∈ units, u ≠ unit → ∀ content,
      t.get? (s.place t.here u) = some (.file content) →
        t'.get? (s.place t.here u) = some (.file content) := by
    intro u hu hne content hget
    rw [hothers _ (hapart u hu unit hunit hne)]
    split_ifs with hneeded
    · obtain ⟨mid, hmake, -⟩ := hwritable
      rcases FileTree.free_of_makeDirectory hmake hneeded with hnone | hdirectory
      · rw [hget] at hnone
        cases hnone
      · rw [hget] at hdirectory
        cases hdirectory
    · exact hget
  refine ⟨t', hsave, hhere, ⟨?_, ?_⟩⟩
  · intro u hu hnone
    have hne : u ≠ unit := by
      rintro rfl
      rw [Function.update_self] at hnone
      cases hnone
    rw [Function.update_of_ne hne] at hnone
    rw [hhere, hothers _ (hapart u hu unit hunit hne)]
    split_ifs
    · exact .inr rfl
    · exact h.unsaved u hu hnone
  · intro u hu x hx
    rw [hhere]
    by_cases hne : u = unit
    · subst hne
      rw [Function.update_self] at hx
      cases hx
      exact ⟨hlocate, hfile⟩
    · rw [Function.update_of_ne hne] at hx
      obtain ⟨hold, hget⟩ := h.saved u hu x hx
      exact ⟨hextends.locate hold, hkept u hu hne _ hget⟩

/-- A load reads the file of its unit, if there is one. -/
lemma Keeps.load (h : s.Keeps units t m) (hformat : s.format = .json) (hunit : unit ∈ units)
    (hread : ∀ e, t.read (s.path unit) = .error e → e.fault = .missing) :
    s.load t unit = match m unit with
      | none => .error (.notStored unit)
      | some x => .ok x.manifest.present := by
  cases hm : m unit with
  | some x =>
    obtain ⟨hlocate, hget⟩ := h.saved unit hunit x hm
    have hcontent : t.read (s.path unit) = .ok x.manifest.json := by
      simp [FileTree.read, FileTree.find, hlocate, hget, bind, Except.bind]
    have hdecode : Entries.decode x.manifest.json s.format = .ok x.manifest.present := by
      rw [hformat]
      exact Entries.ofJson_json x.manifest
    simp only [FileStore.load, hcontent, hdecode]
    rfl
  | none =>
    -- Either the way is not there, or its end is not; a directory there would hinder.
    have herror : ∃ e, t.read (s.path unit) = .error e := by
      cases hlocate : t.locate (s.path unit) with
      | error fault => simp [FileTree.read, FileTree.find, hlocate, bind, Except.bind]
      | ok l =>
        obtain ⟨-, -, rfl⟩ := FileTree.locate_eq_ok.mp hlocate
        rcases h.unsaved unit hunit hm with hget | hget <;>
          · rw [place] at hget
            simp [FileTree.read, FileTree.find, hlocate, hget, bind, Except.bind]
    obtain ⟨e, he⟩ := herror
    simp only [FileStore.load, he, hread e he, if_true]

end FileStore

/-! ### Runs on both stores -/

namespace Archive

variable {a b : Archive} {s : FileStore} {units : List Text} {m : Saves}

/-- The file system fails at no request of a run. -/
def Unhindered (s : FileStore) (a : Archive) : List Request → Prop
  | [] => True
  | r :: rest => s.Unhindered a.tree r ∧ (a.handle r).1.Unhindered s rest

lemma handle_save (hfiles : a.store = .files s) {now : Instant} {unit : Text} {manifest : Entries}
    {t' : FileTree} (hsave : s.save a.tree unit manifest = (t', none)) :
    a.handle (.save false now unit manifest) = ({ a with tree := t' }, .saved none) := by
  obtain ⟨settings, outDir, store, tree⟩ := a
  cases hfiles
  simp only [handle, Store.save, hsave]
  rfl

/-- Both stores take one request alike, and hold the same afterwards. -/
lemma agrees_handle (hfiles : a.store = .files s) (hformat : s.format = .json)
    (hapart : s.Apart a.tree.here units) (ha : s.Keeps units a.tree m) (hb : b.Keeps m)
    {r : Request} (hplain : r.IsPlain units) (hwork : s.Unhindered a.tree r) :
    (a.handle r).2.Agrees (b.handle r).2 ∧ (a.handle r).1.store = .files s ∧
      (a.handle r).1.tree.here = a.tree.here ∧
      s.Keeps units (a.handle r).1.tree (r.record m) ∧ (b.handle r).1.Keeps (r.record m) := by
  cases r with
  | save canceled now unit manifest =>
    obtain ⟨rfl, hunit, hnodup⟩ := hplain
    obtain ⟨t', hsave, hhere, hkeeps⟩ := ha.save hapart hformat hunit hwork now.text manifest
    rcases hb.save false now unit manifest with ⟨-, c, hhandle, -, hc⟩ | ⟨hbad, -⟩
    · rw [handle_save hfiles hsave, hhandle, Request.record, if_pos hnodup]
      exact ⟨⟨rfl, rfl⟩, hfiles, hhere, hkeeps, hc⟩
    · exact absurd ⟨rfl, hnodup⟩ hbad
  | load canceled unit =>
    obtain ⟨rfl, hunit⟩ := hplain
    refine ⟨?_, hfiles, rfl, ha, hb⟩
    have hfile : (a.handle (.load false unit)).2 = .loaded (s.load a.tree unit) := by
      simp only [handle, Store.load, hfiles]
      rfl
    rw [hfile, hb.load unit, ha.load hformat hunit hwork]
    cases m unit with
    | none => exact ⟨rfl, rfl⟩
    | some x =>
      change x.manifest.present.getD [] = x.manifest
      cases hx : x.manifest <;> rfl
  | list canceled => exact hplain.elim
  | reopen => exact hplain.elim

/-- A run on both stores, from the same map on. -/
lemma agrees_answers {history : List Request} (hfiles : a.store = .files s)
    (hformat : s.format = .json) (hapart : s.Apart a.tree.here units)
    (ha : s.Keeps units a.tree m) (hb : b.Keeps m) (hplain : ∀ r ∈ history, r.IsPlain units)
    (hwork : a.Unhindered s history) :
    List.Forall₂ Answer.Agrees (a.answers history) (b.answers history) := by
  induction history generalizing a b m with
  | nil => exact .nil
  | cons r rest ih =>
    obtain ⟨hfirst, hrest⟩ := List.forall_mem_cons.mp hplain
    obtain ⟨hnow, hlater⟩ := hwork
    obtain ⟨hagrees, hfiles', hhere, ha', hb'⟩ :=
      agrees_handle hfiles hformat hapart ha hb hfirst hnow
    exact .cons hagrees (ih hfiles' (hhere.symm ▸ hapart) ha' hb' hrest hlater)

end Archive

/-! ### When the file system does not fail -/

namespace FileStore

variable {s : FileStore} {t t' : FileTree} {units : List Text} {u : Text}

/-- No manifest stands where that of another unit needs a directory. -/
def Clear (s : FileStore) (here : Location) (units : List Text) : Prop :=
  ∀ u ∈ units, ∀ v ∈ units, u ≠ v → s.place here v ∉ s.needs here u

/-- Each manifest can be written in a tree, and none is in the way of another. -/
structure Ready (s : FileStore) (units : List Text) (t : FileTree) : Prop where
  writable : ∀ u ∈ units, s.Writable t u
  clear : s.Clear t.here units

/-- A tree that has come of another by saving manifests: what is new are directories that some
manifest needs, and manifests. -/
structure Developed (s : FileStore) (units : List Text) (t t' : FileTree) : Prop where
  larger : t.Extends t'
  changed : ∀ k, t'.get? k = t.get? k ∨
    (t'.get? k = some .directory ∧ ∃ u ∈ units, k ∈ s.needs t.here u) ∨
    ∃ u ∈ units, k = s.place t.here u ∧ ∃ content, t'.get? k = some (.file content)

lemma Developed.refl (t : FileTree) : s.Developed units t t := ⟨.refl t, fun _ => .inl rfl⟩

lemma Ready.place_not_mem_needs (h : s.Ready units t) {v : Text} (hu : u ∈ units) (hv : v ∈ units) :
    s.place t.here v ∉ s.needs t.here u := by
  by_cases huv : u = v
  · subst huv
    exact (h.writable u hu).not_mem_needs
  · exact h.clear u hu v hv huv

section Developed

variable (hready : s.Ready units t) (h : s.Developed units t t') (hu : u ∈ units)
include hready h hu

/-- The directories that a manifest needs can still be made. -/
lemma Developed.free {k : Location} (hk : k ∈ s.needs t.here u) :
    t'.get? k = none ∨ t'.get? k = some .directory := by
  rcases h.changed k with hsame | ⟨hdirectory, -⟩ | ⟨v, hv, rfl, -⟩
  · rw [hsame]
    obtain ⟨mid, hmake, -⟩ := hready.writable u hu
    exact FileTree.free_of_makeDirectory hmake hk
  · exact .inr hdirectory
  · exact absurd hk (hready.place_not_mem_needs hu hv)

/-- No directory has come to stand where a manifest goes. -/
lemma Developed.not_directory : t'.get? (s.place t.here u) ≠ some .directory := by
  rcases h.changed (s.place t.here u) with hsame | ⟨-, v, hv, hmem⟩ | ⟨-, -, -, content, hfile⟩
  · obtain ⟨mid, hmake, -, hget⟩ := hready.writable u hu
    rw [get_makeDirectory_path hmake, if_neg (hready.place_not_mem_needs hu hu)] at hget
    rwa [hsame]
  · exact absurd hmem (hready.place_not_mem_needs hv hu)
  · rw [hfile]
    rintro ⟨⟩

lemma Developed.writable : s.Writable t' u := by
  obtain ⟨mid, hmake, hlocate, -⟩ := hready.writable u hu
  obtain ⟨mid', hmake'⟩ :=
    FileTree.makeDirectory_of_extends hmake h.larger fun k hk => h.free hready hu hk
  have hplace : s.place t'.here u = s.place t.here u := by rw [h.larger.here]
  have hmore : mid.Extends mid' := by
    refine ⟨?_, fun k hk => ?_⟩
    · rw [(FileTree.extends_makeDirectory hmake').here, (FileTree.extends_makeDirectory hmake).here,
        h.larger.here]
    · rw [get_makeDirectory_path hmake] at hk
      rw [get_makeDirectory_path hmake', h.larger.here]
      split_ifs at hk ⊢
      · rfl
      · exact h.larger.directory k hk
  refine ⟨mid', hmake', hplace ▸ hmore.locate hlocate, ?_⟩
  rw [hplace, get_makeDirectory_path hmake', h.larger.here,
    if_neg (hready.place_not_mem_needs hu hu)]
  exact h.not_directory hready hu

lemma Developed.readable {e : FileError} (he : t'.read (s.path u) = .error e) :
    e.fault = .missing := by
  obtain ⟨mid, hmake, hlocate, -⟩ := hready.writable u hu
  obtain ⟨husable, hway, -⟩ := FileTree.locate_eq_ok.mp hlocate
  have hclear : ∀ x ∈ Path.way t'.here (s.path u),
      t'.get? x = some .directory ∨ t'.get? x = none := by
    intro x hx
    rw [h.larger.here, ← (FileTree.extends_makeDirectory hmake).here] at hx
    have hdirectory := hway x hx
    rw [get_makeDirectory_path hmake] at hdirectory
    split_ifs at hdirectory with hneeded
    · exact (h.free hready hu hneeded).symm
    · exact .inl (h.larger.directory x hdirectory)
  have hnot := h.not_directory hready hu
  rcases FileTree.locate_of_clear husable hclear with hfound | hmissing
  · have hplace : Path.resolve t'.here (s.path u) = s.place t.here u := by
      rw [h.larger.here]
      rfl
    rw [hplace] at hfound
    cases hget : t'.get? (s.place t.here u) with
    | none =>
      simp [FileTree.read, FileTree.find, hfound, hget, bind, Except.bind] at he
      rw [← he]
    | some entry =>
      cases entry with
      | directory => exact absurd hget hnot
      | file content => simp [FileTree.read, FileTree.find, hfound, hget, bind, Except.bind] at he
      | database db => simp [FileTree.read, FileTree.find, hfound, hget, bind, Except.bind] at he
  · simp [FileTree.read, FileTree.find, hmissing, bind, Except.bind] at he
    rw [← he]

/-- A save adds no more than its manifest and the directories that this needs. -/
lemma Developed.save (hformat : s.format = .json) (manifest : Entries) :
    ∃ t'', s.save t' u manifest = (t'', none) ∧ s.Developed units t t'' := by
  obtain ⟨t'', hsave, hextends, -, hfile, hothers⟩ :=
    save_of_writable hformat (h.writable hready hu) manifest
  rw [h.larger.here] at hfile hothers
  refine ⟨t'', hsave, h.larger.trans hextends, fun k => ?_⟩
  by_cases hplace : k = s.place t.here u
  · exact .inr (.inr ⟨u, hu, hplace, _, hplace ▸ hfile⟩)
  by_cases hneeded : k ∈ s.needs t.here u
  · rw [hothers k hplace, if_pos hneeded]
    exact .inr (.inl ⟨rfl, u, hu, hneeded⟩)
  · rw [hothers k hplace, if_neg hneeded]
    exact h.changed k

end Developed

end FileStore

/-- Where each manifest can be written and none is in the way of another, the file system fails at
no request. -/
lemma Archive.unhindered_of_ready {a : Archive} {s : FileStore} {units : List Text} {t : FileTree}
    {history : List Request} (hfiles : a.store = .files s) (hformat : s.format = .json)
    (hready : s.Ready units t) (h : s.Developed units t a.tree)
    (hplain : ∀ r ∈ history, r.IsPlain units) : a.Unhindered s history := by
  induction history generalizing a with
  | nil => trivial
  | cons r rest ih =>
    obtain ⟨hfirst, hrest⟩ := List.forall_mem_cons.mp hplain
    cases r with
    | save canceled now unit manifest =>
      obtain ⟨rfl, hunit, -⟩ := hfirst
      obtain ⟨t', hsave, hdeveloped⟩ := h.save hready hunit hformat manifest
      refine ⟨h.writable hready hunit, ?_⟩
      rw [handle_save hfiles hsave]
      exact ih hfiles hdeveloped hrest
    | load canceled unit =>
      obtain ⟨rfl, hunit⟩ := hfirst
      exact ⟨fun e he => h.readable hready hunit he, ih hfiles h hrest⟩
    | list canceled => exact hfirst.elim
    | reopen => exact hfirst.elim

/-- Files and tables are interchangeable. Take saves and loads of units whose manifests are
different files, none of them there yet, and a new database. As long as the file system does not
fail, each save succeeds in both stores, and each load finds nothing in both or the same entries.
The file system does not fail if each manifest can be saved at the start, and none stands where
another needs a directory. -/
theorem backends_agree {settings : ManifestSettings} {outDir : Text} {t : FileTree} {a b : Archive}
    {s : FileStore} {units : List Text} {history : List Request}
    (hfiles : a.store = .files s) (hformat : s.format = .json)
    (hunsaved : ∀ u ∈ units, a.tree.get? (s.place a.tree.here u) = none)
    (hstore : settings.store = "sqlite") (hopen : Archive.openFor settings outDir t = .ok b)
    (hnew : b.tables? = some {}) (hapart : s.Apart a.tree.here units)
    (hplain : ∀ r ∈ history, r.IsPlain units) :
    (a.Unhindered s history →
      List.Forall₂ Answer.Agrees (a.answers history) (b.answers history)) ∧
    ((∀ u ∈ units, (s.save a.tree u []).2 = none) → s.Clear a.tree.here units →
      a.Unhindered s history) := by
  constructor
  · intro hwork
    have ha : s.Keeps units a.tree fun _ => none := by
      refine ⟨fun u hu _ => .inl (hunsaved u hu), ?_⟩
      rintro u hu x ⟨⟩
    have hb := (Archive.keeps_openFor hstore hopen hnew).1
    exact Archive.agrees_answers hfiles hformat hapart ha hb hplain hwork
  · intro hsavable hclear
    have hready : s.Ready units a.tree :=
      ⟨fun u hu => FileStore.writable_of_save (hsavable u hu), hclear⟩
    exact Archive.unhindered_of_ready hfiles hformat hready (.refl a.tree) hplain

/-- Two units in different directories, of which one is saved twice. -/
def nestedHistory : List Request :=
  [.save false ⟨0⟩ "a.json" [⟨"X", "=1"⟩], .load false "d/a.json", .save false ⟨0⟩ "d/a.json" [],
   .load false "d/a.json", .save false ⟨1⟩ "a.json" [⟨"Y", "=2"⟩, ⟨"Z", "=3"⟩],
   .load false "a.json"]

theorem nested_units_agree :
    ∃ a b, Archive.openFor { store := "file" } [] {} = .ok a ∧
      Archive.openFor { store := "sqlite", database := ":memory:" } [] {} = .ok b ∧
      List.Forall₂ Answer.Agrees (a.answers nestedHistory) (b.answers nestedHistory) := by
  obtain ⟨a, ha, hfiles, htree⟩ : ∃ a, Archive.openFor { store := "file" } [] {} = .ok a ∧
      a.store = .files ⟨.json, []⟩ ∧ a.tree = {} := ⟨_, rfl, rfl, rfl⟩
  obtain ⟨b, hopen, hnew⟩ : ∃ b,
      Archive.openFor { store := "sqlite", database := ":memory:" } [] {} = .ok b ∧
        b.tables? = some {} := ⟨_, rfl, rfl⟩
  have hapart : FileStore.Apart ⟨.json, []⟩ a.tree.here ["a.json", "d/a.json"] := by
    rw [htree]
    unfold FileStore.Apart
    decide
  have hclear : FileStore.Clear ⟨.json, []⟩ a.tree.here ["a.json", "d/a.json"] := by
    rw [htree]
    unfold FileStore.Clear
    decide
  have hunsaved : ∀ u ∈ (["a.json", "d/a.json"] : List Text),
      a.tree.get? (FileStore.place ⟨.json, []⟩ a.tree.here u) = none := by
    rw [htree]
    decide
  have hsavable : ∀ u ∈ (["a.json", "d/a.json"] : List Text),
      (FileStore.save ⟨.json, []⟩ a.tree u []).2 = none := by
    rw [htree]
    decide
  have hplain : ∀ r ∈ nestedHistory, r.IsPlain ["a.json", "d/a.json"] := by decide
  obtain ⟨hagree, hwork⟩ := backends_agree hfiles rfl hunsaved rfl hopen hnew hapart hplain
  exact ⟨a, b, ha, hopen, hagree (hwork hsavable hclear)⟩

/-- Two paths of one file: the file that was saved under the one is loaded under the other, where
the tables have nothing. -/
theorem aliased_units_disagree :
    FileStore.path ⟨.json, []⟩ "a.json" ≠ FileStore.path ⟨.json, []⟩ "./a.json" ∧
      ∃ a b, Archive.openFor { store := "file" } [] {} = .ok a ∧
        Archive.openFor { store := "sqlite", database := ":memory:" } [] {} = .ok b ∧
        ¬ List.Forall₂ Answer.Agrees
          (a.answers [.save false ⟨0⟩ "a.json" [⟨"A", "=1"⟩], .load false "./a.json"])
          (b.answers [.save false ⟨0⟩ "a.json" [⟨"A", "=1"⟩], .load false "./a.json"]) := by
  refine ⟨by decide, _, _, rfl, rfl, ?_⟩
  intro h
  obtain ⟨-, hrest⟩ := List.forall₂_cons.mp h
  exact (List.forall₂_cons.mp hrest).1

end SheetFormula
