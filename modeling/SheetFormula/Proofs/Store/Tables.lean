import Mathlib.Data.List.Nodup
import Mathlib.Logic.Function.Basic
import Mathlib.Tactic.Lemma
import Mathlib.Tactic.SplitIfs
import SheetFormula.Store.Database

/-!
# Tables as a map

A database stands for a map from units to what was last saved of them. Saving a manifest without
repeated names updates the map at one unit, and loading and listing read it off.
-/

namespace SheetFormula

/-- What has been saved of a unit. -/
structure Saved where
  compiledAt : Text
  manifest : Entries
deriving DecidableEq

/-- What has been saved of each unit. -/
abbrev Saves := Text → Option Saved

/-- The units that something has been saved of, each once: the latest come first, and of those
saved at the same time the one with the lesser name. -/
structure Saves.Listed (m : Saves) (units : List Text) : Prop where
  distinct : units.Nodup
  complete : ∀ unit, unit ∈ units ↔ (m unit).isSome
  latestFirst : units.Pairwise fun a b => ∀ x y, m a = some x → m b = some y →
    y.compiledAt < x.compiledAt ∨ x.compiledAt = y.compiledAt ∧ a < b

namespace Database

/-! ### Saving -/

/-- The rows of a manifest, the first one at a position. -/
def rowsFrom (unit compiledAt : Text) : (position : Nat) → Entries → List ManifestRow
  | _, [] => []
  | position, e :: rest =>
    ⟨unit, e.name, position, e.formula, compiledAt⟩ :: rowsFrom unit compiledAt (position + 1) rest

/-- The rows of what has been saved of a unit. -/
def rowsOf (unit : Text) : Option Saved → List ManifestRow
  | none => []
  | some s => rowsFrom unit s.compiledAt 0 s.manifest

section Rows

variable {unit compiledAt : Text}

lemma unit_of_mem_rowsFrom {position : Nat} {es : Entries} {r : ManifestRow}
    (h : r ∈ rowsFrom unit compiledAt position es) : r.unit = unit := by
  induction es generalizing position with
  | nil => cases h
  | cons e rest ih =>
    rcases List.mem_cons.mp h with rfl | h
    · rfl
    · exact ih h

lemma position_of_mem_rowsFrom {position : Nat} {es : Entries} {r : ManifestRow}
    (h : r ∈ rowsFrom unit compiledAt position es) : position ≤ r.position := by
  induction es generalizing position with
  | nil => cases h
  | cons e rest ih =>
    rcases List.mem_cons.mp h with rfl | h
    · exact Nat.le_refl position
    · have := ih h
      omega

lemma sorted_rowsFrom (position : Nat) (es : Entries) :
    (rowsFrom unit compiledAt position es).Pairwise fun a b => a.position ≤ b.position := by
  induction es generalizing position with
  | nil => exact .nil
  | cons e rest ih =>
    refine .cons ?_ (ih (position + 1))
    intro r hr
    have := position_of_mem_rowsFrom hr
    change position ≤ r.position
    omega

lemma entries_rowsFrom (position : Nat) (es : Entries) :
    (rowsFrom unit compiledAt position es).map (fun r => (⟨r.name, r.formula⟩ : Binding)) = es := by
  induction es generalizing position with
  | nil => rfl
  | cons e rest ih => rw [rowsFrom, List.map_cons, ih]

end Rows

lemma insert_eq_some {db next : Database} {row : ManifestRow} :
    db.insert? row = some next ↔
      (∀ r ∈ db.manifests, r.unit = row.unit → r.name ≠ row.name) ∧
        next = { db with manifests := db.manifests ++ [row] } := by
  rw [insert?]
  split_ifs with htaken
  · simp only [List.any_eq_true, Bool.and_eq_true, decide_eq_true_eq] at htaken
    obtain ⟨r, hr, hunit, hname⟩ := htaken
    constructor
    · intro h
      cases h
    · rintro ⟨hfree, -⟩
      exact absurd hname (hfree r hr hunit)
  · simp only [List.any_eq_true, Bool.and_eq_true, decide_eq_true_eq, not_exists, not_and] at htaken
    simp only [Option.some.injEq]
    constructor
    · rintro rfl
      exact ⟨htaken, rfl⟩
    · rintro ⟨-, rfl⟩
      rfl

/-- The entries go in one by one, so a name is refused if it is taken before or repeated. -/
lemma insertAll_eq_ok {unit compiledAt : Text} {position : Nat} {es : Entries}
    {db next : Database} :
    insertAll unit compiledAt position es db = .ok next ↔
      es.names.Nodup ∧ (∀ r ∈ db.manifests, r.unit = unit → r.name ∉ es.names) ∧
        next = { db with manifests := db.manifests ++ rowsFrom unit compiledAt position es } := by
  induction es generalizing position db with
  | nil => simp [insertAll, Entries.names, rowsFrom, eq_comm]
  | cons e rest ih =>
    have hnames : Entries.names (e :: rest) = e.name :: Entries.names rest := rfl
    rw [hnames, List.nodup_cons, insertAll]
    constructor
    · intro h
      split at h
      · rename_i mid hmid
        obtain ⟨hfree, rfl⟩ := insert_eq_some.mp hmid
        obtain ⟨hnodup, hrest, rfl⟩ := ih.mp h
        simp only [List.mem_append, List.mem_singleton] at hrest
        refine ⟨⟨hrest _ (.inr rfl) rfl, hnodup⟩, ?_, by simp [rowsFrom]⟩
        intro r hr hunit hmem
        rcases List.mem_cons.mp hmem with hname | hmem
        · exact hfree r hr hunit hname
        · exact hrest r (.inl hr) hunit hmem
      · cases h
    · rintro ⟨⟨hnew, hnodup⟩, hfree, rfl⟩
      have hinsert : db.insert? ⟨unit, e.name, position, e.formula, compiledAt⟩ =
          some { db with
            manifests := db.manifests ++ [⟨unit, e.name, position, e.formula, compiledAt⟩] } := by
        refine insert_eq_some.mpr ⟨?_, rfl⟩
        intro r hr hunit hname
        exact hfree r hr hunit (hname ▸ List.mem_cons_self)
      rw [hinsert]
      refine ih.mpr ⟨hnodup, ?_, by simp [rowsFrom]⟩
      intro r hr hunit hmem
      rcases List.mem_append.mp hr with hr | hr
      · exact hfree r hr hunit (List.mem_cons_of_mem _ hmem)
      · rw [List.mem_singleton] at hr
        subst hr
        exact hnew hmem

/-- A save succeeds if no name is repeated: the rows of the unit go first, so none is taken. -/
lemma save_eq_ok {db next : Database} {unit compiledAt : Text} {es : Entries} :
    db.save unit compiledAt es = .ok next ↔
      es.names.Nodup ∧
        next =
          { units := (db.record ⟨unit, compiledAt⟩).units
            manifests :=
              db.manifests.filter (·.unit ≠ unit) ++ rowsFrom unit compiledAt 0 es } := by
  have hmanifests : ((db.clear unit).record ⟨unit, compiledAt⟩).manifests =
      db.manifests.filter (·.unit ≠ unit) := by
    rw [record]
    split_ifs <;> rfl
  have hunits : ((db.clear unit).record ⟨unit, compiledAt⟩).units =
      (db.record ⟨unit, compiledAt⟩).units := by
    rw [record, record, clear]
    split_ifs <;> rfl
  have hfree : ∀ r ∈ db.manifests.filter (·.unit ≠ unit), r.unit = unit → r.name ∉ es.names := by
    intro r hr hunit
    exact absurd hunit (by simpa using (List.mem_filter.mp hr).2)
  rw [save, insertAll_eq_ok, hmanifests, hunits]
  constructor
  · rintro ⟨hnodup, -, rfl⟩
    exact ⟨hnodup, rfl⟩
  · rintro ⟨hnodup, rfl⟩
    exact ⟨hnodup, hfree, rfl⟩

lemma exists_save {es : Entries} (h : es.names.Nodup) (db : Database) (unit compiledAt : Text) :
    ∃ next, db.save unit compiledAt es = .ok next :=
  ⟨_, save_eq_ok.mpr ⟨h, rfl⟩⟩

lemma not_nodup_of_save_error {db : Database} {unit compiledAt name : Text} {es : Entries}
    (h : db.save unit compiledAt es = .error name) : ¬ es.names.Nodup := by
  intro hnodup
  obtain ⟨next, hok⟩ := exists_save hnodup db unit compiledAt
  rw [h] at hok
  cases hok

/-! ### The map that tables stand for -/

/-- The tables hold what the map says: one row for each saved unit, with the time of its last save,
and for each unit the rows of its manifest in order. -/
structure Holds (db : Database) (m : Saves) : Prop where
  distinct : (db.units.map (·.unit)).Nodup
  stamped : ∀ row, row ∈ db.units ↔ (m row.unit).map (·.compiledAt) = some row.compiledAt
  rows : ∀ unit, db.manifests.filter (·.unit = unit) = rowsOf unit (m unit)

lemma holds_empty : Holds {} fun _ => none :=
  ⟨List.nodup_nil, fun row => by simp, fun unit => rfl⟩

section Record

variable {db : Database} {row : UnitRow}

lemma units_record_of_known (h : row.unit ∈ db.units.map (·.unit)) :
    (db.record row).units = db.units.map fun r => if r.unit = row.unit then row else r := by
  have hany : db.units.any (·.unit = row.unit) = true := by simpa using h
  rw [record, if_pos hany]

lemma units_record_of_new (h : row.unit ∉ db.units.map (·.unit)) :
    (db.record row).units = db.units ++ [row] := by
  have hany : ¬ db.units.any (·.unit = row.unit) = true := by simpa using h
  rw [record, if_neg hany]

/-- Recording a save keeps the units distinct. -/
lemma nodup_record (h : (db.units.map (·.unit)).Nodup) :
    ((db.record row).units.map (·.unit)).Nodup := by
  by_cases hknown : row.unit ∈ db.units.map (·.unit)
  · have hsame : (db.record row).units.map (·.unit) = db.units.map (·.unit) := by
      rw [units_record_of_known hknown, List.map_map]
      apply List.map_congr_left
      intro r _
      by_cases hr : r.unit = row.unit <;> simp [hr]
    rwa [hsame]
  · rw [units_record_of_new hknown, List.map_append]
    exact h.append (List.nodup_singleton _) (by simpa using hknown)

/-- Recording a save replaces the row of the unit and leaves the others. -/
lemma mem_record {r : UnitRow} :
    r ∈ (db.record row).units ↔ r = row ∨ r ∈ db.units ∧ r.unit ≠ row.unit := by
  by_cases hknown : row.unit ∈ db.units.map (·.unit)
  · rw [units_record_of_known hknown, List.mem_map]
    obtain ⟨old, hold, hunit⟩ := List.mem_map.mp hknown
    constructor
    · rintro ⟨x, hx, rfl⟩
      by_cases h : x.unit = row.unit
      · exact .inl (if_pos h)
      · rw [if_neg h]
        exact .inr ⟨hx, h⟩
    · rintro (rfl | ⟨hr, hne⟩)
      · exact ⟨old, hold, if_pos hunit⟩
      · exact ⟨r, hr, if_neg hne⟩
  · rw [units_record_of_new hknown, List.mem_append, List.mem_singleton]
    have hother : r ∈ db.units → r.unit ≠ row.unit := by
      intro hr heq
      exact hknown (heq ▸ List.mem_map_of_mem hr)
    tauto

/-- Recording a save leaves the rows of other units. -/
lemma filter_units_record {unit : Text} (hne : unit ≠ row.unit) :
    (db.record row).units.filter (·.unit = unit) = db.units.filter (·.unit = unit) := by
  have hrow : row.unit ≠ unit := Ne.symm hne
  by_cases hknown : row.unit ∈ db.units.map (·.unit)
  · rw [units_record_of_known hknown]
    induction db.units with
    | nil => rfl
    | cons r rest ih =>
      rw [List.map_cons, List.filter_cons, List.filter_cons, ih]
      by_cases hr : r.unit = row.unit
      · simp [hr, hrow]
      · rw [if_neg hr]
  · rw [units_record_of_new hknown, List.filter_append,
      List.filter_cons_of_neg (by simpa using hrow), List.filter_nil, List.append_nil]

end Record

/-- The rows of a manifest in place of earlier ones leave those of other units. -/
lemma filter_manifests_save {unit other compiledAt : Text} (hne : other ≠ unit)
    (rows : List ManifestRow) (es : Entries) :
    (rows.filter (·.unit ≠ unit) ++ rowsFrom unit compiledAt 0 es).filter (·.unit = other) =
      rows.filter (·.unit = other) := by
  have hnone : (rowsFrom unit compiledAt 0 es).filter (·.unit = other) = [] := by
    rw [List.filter_eq_nil_iff]
    intro r hr
    rw [unit_of_mem_rowsFrom hr]
    simpa using fun heq : unit = other => hne heq.symm
  rw [List.filter_append, List.filter_filter, hnone, List.append_nil]
  apply List.filter_congr
  intro r _
  by_cases hr : r.unit = other
  · simp [hr, hne]
  · simp [hr]

/-- The rows of a manifest in place of earlier ones are all there is of its unit. -/
lemma filter_manifests_saved (unit compiledAt : Text) (rows : List ManifestRow) (es : Entries) :
    (rows.filter (·.unit ≠ unit) ++ rowsFrom unit compiledAt 0 es).filter (·.unit = unit) =
      rowsFrom unit compiledAt 0 es := by
  have hnone : rows.filter (fun r => decide (r.unit = unit) && decide (r.unit ≠ unit)) = [] := by
    rw [List.filter_eq_nil_iff]
    intro r _
    simp
  have hall : (rowsFrom unit compiledAt 0 es).filter (·.unit = unit) =
      rowsFrom unit compiledAt 0 es := by
    rw [List.filter_eq_self]
    intro r hr
    exact decide_eq_true (unit_of_mem_rowsFrom hr)
  rw [List.filter_append, List.filter_filter, hnone, hall, List.nil_append]

def about (db : Database) (unit : Text) : List UnitRow × List ManifestRow :=
  (db.units.filter (·.unit = unit), db.manifests.filter (·.unit = unit))

/-- A save leaves the rows of other units. -/
lemma about_save {db next : Database} {unit other compiledAt : Text} {es : Entries}
    (hsave : db.save unit compiledAt es = .ok next) (hne : other ≠ unit) :
    next.about other = db.about other := by
  obtain ⟨-, rfl⟩ := save_eq_ok.mp hsave
  rw [about, about, filter_units_record hne, filter_manifests_save hne]

/-- A save that succeeds updates the map at its unit. -/
lemma Holds.save {db next : Database} {m : Saves} {unit compiledAt : Text} {es : Entries}
    (h : db.Holds m) (hsave : db.save unit compiledAt es = .ok next) :
    next.Holds (Function.update m unit (some ⟨compiledAt, es⟩)) := by
  obtain ⟨-, rfl⟩ := save_eq_ok.mp hsave
  refine ⟨nodup_record h.distinct, ?_, ?_⟩
  · intro row
    change row ∈ (db.record ⟨unit, compiledAt⟩).units ↔ _
    rw [mem_record]
    by_cases hunit : row.unit = unit
    · subst hunit
      obtain ⟨u, c⟩ := row
      simp [eq_comm]
    · rw [Function.update_of_ne hunit, ← h.stamped row]
      constructor
      · rintro (rfl | ⟨hrow, -⟩)
        · exact absurd rfl hunit
        · exact hrow
      · intro hrow
        exact .inr ⟨hrow, hunit⟩
  · intro u
    by_cases hu : u = unit
    · subst hu
      rw [Function.update_self]
      exact filter_manifests_saved u compiledAt db.manifests es
    · rw [Function.update_of_ne hu, ← h.rows u]
      exact filter_manifests_save hu db.manifests es

/-- The map is defined where there is a row of the unit. -/
lemma Holds.isSome_iff {db : Database} {m : Saves} (h : db.Holds m) (unit : Text) :
    unit ∈ db.units.map (·.unit) ↔ (m unit).isSome := by
  constructor
  · intro hmem
    obtain ⟨row, hrow, rfl⟩ := List.mem_map.mp hmem
    have hstamp := (h.stamped row).mp hrow
    cases hm : m row.unit with
    | none => simp [hm] at hstamp
    | some s => rfl
  · intro hsome
    obtain ⟨s, hs⟩ := Option.isSome_iff_exists.mp hsome
    exact List.mem_map.mpr ⟨⟨unit, s.compiledAt⟩, (h.stamped _).mpr (by simp [hs]), rfl⟩

/-! ### Loading and listing -/

/-- Loading gives the manifest that was saved last, in order. -/
lemma Holds.load {db : Database} {m : Saves} (h : db.Holds m) (unit : Text) :
    db.load? unit = (m unit).map (·.manifest) := by
  have hany : db.units.any (·.unit = unit) = true ↔ (m unit).isSome := by
    rw [← h.isSome_iff unit]
    simp
  rw [load?, h.rows unit]
  cases hm : m unit with
  | none =>
    have hnone : ¬ db.units.any (·.unit = unit) = true := by
      rw [hany, hm]
      exact Bool.false_ne_true
    rw [if_neg hnone]
    rfl
  | some s =>
    have hsome : db.units.any (·.unit = unit) = true := by
      rw [hany, hm]
      rfl
    have hsorted : (rowsFrom unit s.compiledAt 0 s.manifest).Pairwise fun a b =>
        decide (a.position ≤ b.position) = true :=
      (sorted_rowsFrom 0 s.manifest).imp fun hle => decide_eq_true hle
    rw [if_pos hsome, rowsOf]
    simp only [List.mergeSort_of_pairwise hsorted, entries_rowsFrom, Option.map_some]

lemma laterFirst_iff {a b : UnitRow} : laterFirst a b = true ↔
    b.compiledAt < a.compiledAt ∨ a.compiledAt = b.compiledAt ∧ a.unit ≤ b.unit := by
  simp [laterFirst]

lemma laterFirst_trans (a b c : UnitRow) (hab : laterFirst a b = true)
    (hbc : laterFirst b c = true) : laterFirst a c = true := by
  rw [laterFirst_iff] at *
  rcases hab with hab | ⟨hab, hunit⟩
  · rcases hbc with hbc | ⟨hbc, -⟩
    · exact .inl (List.lt_trans hbc hab)
    · exact .inl (hbc ▸ hab)
  · rcases hbc with hbc | ⟨hbc, hunit'⟩
    · exact .inl (hab ▸ hbc)
    · exact .inr ⟨hab.trans hbc, List.le_trans hunit hunit'⟩

lemma laterFirst_total (a b : UnitRow) : (laterFirst a b || laterFirst b a) = true := by
  rw [Bool.or_eq_true, laterFirst_iff, laterFirst_iff]
  rcases Std.lt_trichotomy a.compiledAt b.compiledAt with hlt | heq | hgt
  · exact .inr (.inl hlt)
  · rcases List.le_total a.unit b.unit with hle | hle
    · exact .inl (.inr ⟨heq, hle⟩)
    · exact .inr (.inr ⟨heq.symm, hle⟩)
  · exact .inl (.inl hgt)

/-- Listing gives each saved unit once, the latest first. -/
lemma Holds.listed {db : Database} {m : Saves} (h : db.Holds m) : m.Listed db.unitNames := by
  have hperm : (db.units.mergeSort laterFirst).Perm db.units := List.mergeSort_perm _ _
  have hdistinct : db.unitNames.Nodup := (hperm.map _).nodup_iff.mpr h.distinct
  refine ⟨hdistinct, ?_, ?_⟩
  · intro unit
    rw [← h.isSome_iff unit]
    exact (hperm.map _).mem_iff
  · have hsorted := List.pairwise_mergeSort laterFirst_trans laterFirst_total db.units
    have hnodup : (db.units.mergeSort laterFirst).Pairwise fun a b => a.unit ≠ b.unit :=
      List.pairwise_map.mp hdistinct
    rw [unitNames, List.pairwise_map]
    refine (hsorted.and hnodup).imp_of_mem ?_
    rintro a b ha hb ⟨hlater, hne⟩ x y hx hy
    have hstamp : ∀ {row : UnitRow} {s : Saved}, row ∈ db.units.mergeSort laterFirst →
        m row.unit = some s → s.compiledAt = row.compiledAt := by
      intro row s hrow hs
      have := (h.stamped row).mp (hperm.mem_iff.mp hrow)
      simpa [hs] using this
    rw [hstamp ha hx, hstamp hb hy]
    rcases laterFirst_iff.mp hlater with hlt | ⟨heq, hle⟩
    · exact .inl hlt
    · exact .inr ⟨heq, Std.lt_of_le_of_ne hle hne⟩

end Database

end SheetFormula
