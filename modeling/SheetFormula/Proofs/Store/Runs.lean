import SheetFormula.Proofs.FileTree
import SheetFormula.Proofs.Store.Tables
import SheetFormula.Store

/-!
# Stores in use

A store answers requests one after the other. A store of tables answers as the map of the saves that
have succeeded does: those whose caller had not given up and whose manifest repeats no name.
-/

namespace SheetFormula

inductive Request where
  | save (canceled : Bool) (now : Instant) (unit : Text) (manifest : Entries)
  | load (canceled : Bool) (unit : Text)
  | list (canceled : Bool)
  /-- Closes the store and opens it again. -/
  | reopen
deriving DecidableEq

inductive Answer where
  | saved (failure : Option Failure)
  | loaded (result : Except Failure (Option Entries))
  | listed (result : Except Failure (Option (List Text)))
  | reopened (failure : Option Failure)

/-- A store in use: how it was opened, and the files that it is on. -/
structure Archive where
  settings : ManifestSettings
  outDir : Text
  store : Store
  tree : FileTree

namespace Archive

def openFor (settings : ManifestSettings) (outDir : Text) (t : FileTree) :
    Except Failure Archive :=
  (Store.openFor t settings outDir).map fun (store, tree) => ⟨settings, outDir, store, tree⟩

/-- Answers a request. -/
def handle (a : Archive) : Request → Archive × Answer
  | .save canceled now unit manifest =>
    match a.store.save a.tree canceled now unit manifest with
    | ((store, tree), failure) => ({ a with store, tree }, .saved failure)
  | .load canceled unit => (a, .loaded (a.store.load a.tree canceled unit))
  | .list canceled => (a, .listed (a.store.units a.tree canceled))
  | .reopen =>
    match openFor a.settings a.outDir a.tree with
    | .ok b => (b, .reopened none)
    | .error f => ({ a with store := a.store.close }, .reopened (some f))

def after (a : Archive) (history : List Request) : Archive :=
  history.foldl (fun a r => (a.handle r).1) a

/-- The tables that the store sees, if it is one of tables. -/
def tables? (a : Archive) : Option Database :=
  match a.store with
  | .tables s => some (s.tables a.tree)
  | .files _ => none

end Archive

/-- What a request adds to the saves: a manifest without repeated names, if the caller has not given
up. -/
def Request.record (m : Saves) : Request → Saves
  | .save false now unit manifest =>
    if manifest.names.Nodup then Function.update m unit (some ⟨now.text, manifest⟩) else m
  | _ => m

/-- The last successful save of each unit. -/
def Saves.of (history : List Request) : Saves := history.foldl Request.record fun _ => none

/-! ### Databases in their place -/

namespace TableStore

/-- Opening a path gives an empty database in memory, or the database file that is there or that is
put there. -/
lemma openAt_cases {t t' : FileTree} {path : Text} {s : TableStore}
    (h : openAt t path = .ok (s, t')) :
    path = ":memory:" ∧ s = { path := path } ∧ t' = t ∨
      path ≠ ":memory:" ∧ ∃ l, t.locate (fileName path) = .ok l ∧
        s = { path := path, location := some l } ∧
        ((∃ db, t.get? l = some (.database db)) ∧ t' = t ∨
          (∀ db, t.get? l ≠ some (.database db)) ∧ t.get? l ≠ some .directory ∧
            t' = t.put l (.database {})) := by
  rw [openAt] at h
  split_ifs at h with hmemory
  · cases h
    exact .inl ⟨hmemory, rfl, rfl⟩
  · refine .inr ⟨hmemory, ?_⟩
    split at h
    · cases h
    · rename_i l hlocate
      simp only at h
      split at h
      · cases h
      · rename_i db hfile
        cases h
        exact ⟨l, hlocate, rfl, .inl ⟨⟨db, hfile⟩, rfl⟩⟩
      · rename_i hnone
        cases h
        exact ⟨l, hlocate, rfl, .inr ⟨by simp [hnone], by simp [hnone], rfl⟩⟩
      · rename_i content hfile
        split_ifs at h
        cases h
        exact ⟨l, hlocate, rfl, .inr ⟨by simp [hfile], by simp [hfile], rfl⟩⟩

/-- An open store whose tables are where its path says: in memory, or in a database file. -/
inductive Seated (path : Text) : TableStore → FileTree → Prop
  | memory (db : Database) (t : FileTree) (hpath : path = ":memory:") :
    Seated path { path := path, memory := db } t
  | file {l : Location} {db : Database} {t : FileTree} (hpath : path ≠ ":memory:")
    (hlocate : t.locate (fileName path) = .ok l) (hfile : t.get? l = some (.database db)) :
    Seated path { path := path, location := some l } t

namespace Seated

variable {path : Text} {s : TableStore} {t t' : FileTree}

lemma isOpen (h : Seated path s t) : s.isOpen = true := by
  cases h <;> rfl

/-- Putting a database where no directory is. -/
lemma of_put {l : Location} (db : Database) (hpath : path ≠ ":memory:")
    (hlocate : t.locate (fileName path) = .ok l) (hl : t.get? l ≠ some .directory) :
    Seated path { path := path, location := some l } (t.put l (.database db)) := by
  have hne := FileTree.ne_nil_of_get hl
  have hfile : (t.put l (.database db)).get? l = some (.database db) := by
    rw [FileTree.get_put hne, if_pos rfl]
  exact .file hpath ((FileTree.extends_put hne (.inr hl)).locate hlocate) hfile

lemma of_openAt (h : openAt t path = .ok (s, t')) : Seated path s t' := by
  rcases openAt_cases h with
    ⟨hmemory, rfl, rfl⟩ | ⟨hpath, l, hlocate, rfl, ⟨⟨db, hfile⟩, rfl⟩ | ⟨-, hl, rfl⟩⟩
  · exact .memory {} t' hmemory
  · exact .file hpath hlocate hfile
  · exact of_put {} hpath hlocate hl

/-- Opening a database file again changes nothing. -/
lemma openAt_eq (h : Seated path s t) (hpath : path ≠ ":memory:") :
    openAt t path = .ok (s, t) := by
  cases h with
  | memory db t hmemory => exact absurd hmemory hpath
  | file _ hlocate hfile =>
    rw [openAt, if_neg hpath, hlocate]
    simp only [hfile]

/-- The tables that have been put in place are seen. -/
lemma replace (h : Seated path s t) (db : Database) :
    Seated path (s.replace t db).1 (s.replace t db).2 ∧
      (s.replace t db).1.tables (s.replace t db).2 = db := by
  cases h with
  | memory old t hmemory => exact ⟨.memory db t hmemory, rfl⟩
  | @file l old t hpath hlocate hfile =>
    have hl : t.get? l ≠ some .directory := by simp [hfile]
    have hput : (t.put l (.database db)).get? l = some (.database db) := by
      rw [FileTree.get_put (FileTree.ne_nil_of_get hl), if_pos rfl]
    refine ⟨of_put db hpath hlocate hl, ?_⟩
    simp only [TableStore.replace, TableStore.tables, hput]

lemma obstacle_eq_none (h : Seated path s t) : s.obstacle false = none := by
  simp [obstacle, h.isOpen]

lemma obstacle_eq_canceled (h : Seated path s t) : s.obstacle true = some .canceled := by
  simp [obstacle, h.isOpen]

/-- A save puts its manifest into the tables, or fails and leaves everything as it was. -/
lemma save_cases (h : Seated path s t) {m : Saves} (hm : (s.tables t).Holds m) (canceled : Bool)
    (now : Instant) (unit : Text) (manifest : Entries) :
    (canceled = false ∧ manifest.names.Nodup) ∧
        (∃ s' t', s.save t canceled now unit manifest = ((s', t'), none) ∧ Seated path s' t' ∧
          (s'.tables t').Holds (Function.update m unit (some ⟨now.text, manifest⟩))) ∨
      ¬ (canceled = false ∧ manifest.names.Nodup) ∧
        ∃ f, s.save t canceled now unit manifest = ((s, t), some f) := by
  cases canceled with
  | true =>
    refine .inr ⟨by simp, .during "beginning manifest transaction" .canceled, ?_⟩
    simp only [TableStore.save, h.obstacle_eq_canceled]
  | false =>
    cases hsave : (s.tables t).save unit now.text manifest with
    | ok db =>
      obtain ⟨hnodup, -⟩ := Database.save_eq_ok.mp hsave
      obtain ⟨hseated, htables⟩ := h.replace db
      refine .inl ⟨⟨rfl, hnodup⟩, _, _, ?_, hseated, ?_⟩
      · simp only [TableStore.save, h.obstacle_eq_none, hsave]
      · rw [htables]
        exact hm.save hsave
    | error name =>
      refine .inr ⟨by simp [Database.not_nodup_of_save_error hsave], ?_⟩
      simp only [TableStore.save, h.obstacle_eq_none, hsave]
      exact ⟨_, rfl⟩

end Seated

end TableStore

/-! ### One request -/

namespace Archive

/-- A store of tables that hold what a map says. -/
structure Keeps (a : Archive) (m : Saves) : Prop where
  settings : a.settings.store = "sqlite"
  tables : ∃ s, a.store = .tables s ∧ TableStore.Seated a.settings.database s a.tree ∧
    (s.tables a.tree).Holds m

variable {a : Archive} {m : Saves}

lemma keeps_openFor {settings : ManifestSettings} {outDir : Text} {t : FileTree}
    (hstore : settings.store = "sqlite") (hopen : openFor settings outDir t = .ok a)
    (hnew : a.tables? = some {}) : a.Keeps (fun _ => none) ∧ a.settings = settings := by
  rw [openFor, Store.openFor, if_pos hstore, Result.map_eq_ok] at hopen
  obtain ⟨⟨store, tree⟩, hopened, rfl⟩ := hopen
  obtain ⟨⟨s, tree⟩, hopened, hpair⟩ := Result.map_eq_ok.mp hopened
  cases hpair
  have htables : s.tables tree = {} := Option.some.inj hnew
  refine ⟨⟨hstore, s, rfl, .of_openAt hopened, ?_⟩, rfl⟩
  rw [htables]
  exact Database.holds_empty

/-- A save succeeds if its caller has not given up and no name is repeated; otherwise nothing at all
changes. -/
lemma Keeps.save (h : a.Keeps m) (canceled : Bool) (now : Instant) (unit : Text)
    (manifest : Entries) :
    (canceled = false ∧ manifest.names.Nodup) ∧
        (∃ b, a.handle (.save canceled now unit manifest) = (b, .saved none) ∧
          b.settings = a.settings ∧
          b.Keeps (Function.update m unit (some ⟨now.text, manifest⟩))) ∨
      ¬ (canceled = false ∧ manifest.names.Nodup) ∧
        ∃ f, a.handle (.save canceled now unit manifest) = (a, .saved (some f)) := by
  obtain ⟨settings, outDir, store, tree⟩ := a
  obtain ⟨hsettings, s, hstore, hseated, hholds⟩ := h
  cases hstore
  rcases hseated.save_cases hholds canceled now unit manifest with
    ⟨hgood, s', t', hsave, hseated', hholds'⟩ | ⟨hbad, f, hsave⟩
  · refine .inl ⟨hgood, ⟨settings, outDir, .tables s', t'⟩, ?_, rfl,
      ⟨hsettings, s', rfl, hseated', hholds'⟩⟩
    simp only [handle, Store.save, hsave]
  · refine .inr ⟨hbad, f, ?_⟩
    simp only [handle, Store.save, hsave]

lemma Keeps.load (h : a.Keeps m) (unit : Text) :
    (a.handle (.load false unit)).2 =
      .loaded (match m unit with
        | none => .error (.notStored unit)
        | some s => .ok (some s.manifest)) := by
  obtain ⟨-, s, hstore, hseated, hholds⟩ := h
  simp only [handle, Store.load, hstore, TableStore.load, hseated.obstacle_eq_none,
    hholds.load unit]
  cases m unit <;> rfl

lemma Keeps.list (h : a.Keeps m) :
    ∃ units, (a.handle (.list false)).2 = .listed (.ok (some units)) ∧ m.Listed units := by
  obtain ⟨-, s, hstore, hseated, hholds⟩ := h
  refine ⟨(s.tables a.tree).unitNames, ?_, hholds.listed⟩
  simp only [handle, Store.units, hstore, TableStore.units, hseated.obstacle_eq_none]
  rfl

/-- A store on a database file is the same when it is opened again. -/
lemma Keeps.reopen (h : a.Keeps m) (hlasting : a.settings.database ≠ ":memory:") :
    a.handle .reopen = (a, .reopened none) := by
  obtain ⟨settings, outDir, store, tree⟩ := a
  obtain ⟨hsettings, s, hstore, hseated, -⟩ := h
  cases hstore
  have hopen : openFor settings outDir tree = .ok ⟨settings, outDir, .tables s, tree⟩ := by
    simp only [openFor, Store.openFor, if_pos hsettings, hseated.openAt_eq hlasting]
    rfl
  simp only [handle, hopen]

/-- Every request leaves tables that hold what the map says after it. -/
lemma Keeps.handle (h : a.Keeps m) {r : Request}
    (hlasting : a.settings.database = ":memory:" → r ≠ .reopen) :
    (a.handle r).1.Keeps (r.record m) ∧ (a.handle r).1.settings = a.settings := by
  cases r with
  | save canceled now unit manifest =>
    rcases h.save canceled now unit manifest with
      ⟨⟨rfl, hnodup⟩, b, hhandle, hsettings, hb⟩ | ⟨hbad, f, hhandle⟩
    · rw [hhandle, Request.record, if_pos hnodup]
      exact ⟨hb, hsettings⟩
    · rw [hhandle]
      cases canceled with
      | true => exact ⟨h, rfl⟩
      | false =>
        rw [Request.record, if_neg fun hnodup => hbad ⟨rfl, hnodup⟩]
        exact ⟨h, rfl⟩
  | load canceled unit => exact ⟨h, rfl⟩
  | list canceled => exact ⟨h, rfl⟩
  | reopen =>
    rw [h.reopen fun hmemory => hlasting hmemory rfl]
    exact ⟨h, rfl⟩

/-! ### Runs -/

/-- The first request of a history leaves a store that can go on with the others. -/
lemma Keeps.handle_cons (h : a.Keeps m) {r : Request} {rest : List Request}
    (hlasting : a.settings.database = ":memory:" → Request.reopen ∉ r :: rest) :
    (a.settings.database = ":memory:" → r ≠ .reopen) ∧ (a.handle r).1.Keeps (r.record m) ∧
      ((a.handle r).1.settings.database = ":memory:" → Request.reopen ∉ rest) := by
  have hfirst : a.settings.database = ":memory:" → r ≠ .reopen := by
    rintro hmemory rfl
    exact hlasting hmemory List.mem_cons_self
  obtain ⟨hnext, hsettings⟩ := h.handle hfirst
  refine ⟨hfirst, hnext, ?_⟩
  rw [hsettings]
  intro hmemory hmem
  exact hlasting hmemory (List.mem_cons_of_mem r hmem)

lemma Keeps.after (h : a.Keeps m) {history : List Request}
    (hlasting : a.settings.database = ":memory:" → Request.reopen ∉ history) :
    (a.after history).Keeps (history.foldl Request.record m) := by
  induction history generalizing a m with
  | nil => exact h
  | cons r rest ih =>
    obtain ⟨-, hnext, hrest⟩ := h.handle_cons hlasting
    exact ih hnext hrest

end Archive

/-- A store of tables is a map. After any history of requests on a new database, a save succeeds
exactly if its caller has not given up and no name is repeated, and otherwise changes nothing; what
is loaded is the last manifest that was saved successfully, and what is listed are the units of the
successful saves, the latest first. -/
theorem tables_refine_map {settings : ManifestSettings} {outDir : Text} {t : FileTree} {a : Archive}
    (hstore : settings.store = "sqlite") (hopen : Archive.openFor settings outDir t = .ok a)
    (hnew : a.tables? = some {}) (history : List Request)
    (hlasting : settings.database = ":memory:" → Request.reopen ∉ history) :
    (∀ canceled now unit manifest,
      (((a.after history).handle (.save canceled now unit manifest)).2 = .saved none ↔
        canceled = false ∧ manifest.names.Nodup) ∧
      (((a.after history).handle (.save canceled now unit manifest)).2 ≠ .saved none →
        ((a.after history).handle (.save canceled now unit manifest)).1 = a.after history)) ∧
    (∀ unit, ((a.after history).handle (.load false unit)).2 =
      .loaded (match Saves.of history unit with
        | none => .error (.notStored unit)
        | some s => .ok (some s.manifest))) ∧
    ∃ units, ((a.after history).handle (.list false)).2 = .listed (.ok (some units)) ∧
      (Saves.of history).Listed units := by
  obtain ⟨hstart, hsettings⟩ := Archive.keeps_openFor hstore hopen hnew
  have hkeeps : (a.after history).Keeps (Saves.of history) := hstart.after (hsettings ▸ hlasting)
  refine ⟨?_, hkeeps.load, hkeeps.list⟩
  intro canceled now unit manifest
  rcases hkeeps.save canceled now unit manifest with
    ⟨hgood, b, hhandle, -⟩ | ⟨hbad, f, hhandle⟩
  · rw [hhandle]
    exact ⟨⟨fun _ => hgood, fun _ => rfl⟩, fun hne => absurd rfl hne⟩
  · rw [hhandle]
    refine ⟨⟨?_, fun hgood => absurd hgood hbad⟩, fun _ => rfl⟩
    rintro ⟨⟩

/-- A database file that is closed and opened again between saves of two units, one of which also
fails twice: for a repeated name, and because the caller has given up. -/
def mixedHistory : List Request :=
  [.save false ⟨20⟩ "a" [⟨"X", "=1"⟩, ⟨"Y", "=2"⟩], .save false ⟨10⟩ "b" [],
   .save false ⟨30⟩ "a" [⟨"X", "=3"⟩, ⟨"X", "=4"⟩], .reopen, .save true ⟨40⟩ "b" [⟨"Z", "=5"⟩]]

theorem mixed_history_refines_map :
    ∃ a, Archive.openFor { store := "sqlite", database := "m.db" } [] {} = .ok a ∧
      a.tables? = some {} ∧
      ((a.after mixedHistory).handle (.load false "a")).2 =
        .loaded (.ok (some [⟨"X", "=1"⟩, ⟨"Y", "=2"⟩])) ∧
      ((a.after mixedHistory).handle (.load false "b")).2 = .loaded (.ok (some [])) ∧
      ((a.after mixedHistory).handle (.load false "c")).2 = .loaded (.error (.notStored "c")) := by
  obtain ⟨a, hopen, hnew⟩ : ∃ a,
      Archive.openFor { store := "sqlite", database := "m.db" } [] {} = .ok a ∧
        a.tables? = some {} := ⟨_, rfl, rfl⟩
  have hlasting : ("m.db" : Text) = ":memory:" → Request.reopen ∉ mixedHistory :=
    fun h => absurd h (by decide)
  obtain ⟨-, hload, -⟩ := tables_refine_map rfl hopen hnew mixedHistory hlasting
  exact ⟨a, hopen, hnew, hload "a", hload "b", hload "c"⟩

end SheetFormula
