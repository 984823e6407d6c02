import SheetFormula.Proofs.Store.Runs

/-!
# Tables that agree

The table of units and the table of entries agree if every entry is of a unit that has a row and
bears the time of that row, and if the entries of each unit are numbered from zero without a gap,
under distinct names. A save keeps tables that agree in agreement, and touches the rows of its own
unit only.
-/

namespace SheetFormula

namespace Database

/-- The entries of one unit are at the positions from zero on, each position once, and no two have
the same name. -/
structure Numbered (rows : List ManifestRow) : Prop where
  positions : (rows.map (·.position)).Perm (List.range rows.length)
  names : (rows.map (·.name)).Nodup

/-- The two tables agree. -/
structure Consistent (db : Database) : Prop where
  /-- A unit has one row. -/
  distinct : (db.units.map (·.unit)).Nodup
  /-- Every entry is of a unit that has a row. -/
  owned : ∀ r ∈ db.manifests, ∃ u ∈ db.units, u.unit = r.unit
  /-- An entry bears the time of its unit. -/
  stamped : ∀ r ∈ db.manifests, ∀ u ∈ db.units, u.unit = r.unit → r.compiledAt = u.compiledAt
  numbered : ∀ unit, Numbered (db.manifests.filter (·.unit = unit))

/-! ### The rows of a manifest -/

section Rows

variable {unit compiledAt : Text}

lemma names_rowsFrom (position : Nat) (es : Entries) :
    (rowsFrom unit compiledAt position es).map (·.name) = es.names := by
  induction es generalizing position with
  | nil => rfl
  | cons e rest ih =>
    rw [rowsFrom, List.map_cons, ih]
    rfl

lemma positions_rowsFrom (position : Nat) (es : Entries) :
    (rowsFrom unit compiledAt position es).map (·.position) =
      List.range' position (rowsFrom unit compiledAt position es).length := by
  induction es generalizing position with
  | nil => rfl
  | cons e rest ih => rw [rowsFrom, List.map_cons, ih, List.length_cons, List.range'_succ]

lemma compiledAt_of_mem_rowsFrom {position : Nat} {es : Entries} {r : ManifestRow}
    (h : r ∈ rowsFrom unit compiledAt position es) : r.compiledAt = compiledAt := by
  induction es generalizing position with
  | nil => cases h
  | cons e rest ih =>
    rcases List.mem_cons.mp h with rfl | h
    · rfl
    · exact ih h

lemma numbered_rowsFrom {es : Entries} (h : es.names.Nodup) :
    Numbered (rowsFrom unit compiledAt 0 es) where
  positions := by
    rw [positions_rowsFrom, List.range_eq_range']
  names := by
    rwa [names_rowsFrom]

end Rows

/-! ### Saving -/

lemma consistent_empty : Consistent {} where
  distinct := List.nodup_nil
  owned := by simp
  stamped := by simp
  numbered _ := ⟨.refl _, List.nodup_nil⟩

/-- A save that succeeds keeps the tables in agreement. -/
lemma Consistent.save {db next : Database} {unit compiledAt : Text} {es : Entries}
    (h : db.Consistent) (hsave : db.save unit compiledAt es = .ok next) : next.Consistent := by
  obtain ⟨hnodup, rfl⟩ := save_eq_ok.mp hsave
  have hrows : ∀ {r : ManifestRow},
      r ∈ db.manifests.filter (·.unit ≠ unit) ++ rowsFrom unit compiledAt 0 es →
        r ∈ db.manifests ∧ r.unit ≠ unit ∨ r.unit = unit ∧ r.compiledAt = compiledAt := by
    intro r hr
    rcases List.mem_append.mp hr with hr | hr
    · exact .inl (by simpa using hr)
    · exact .inr ⟨unit_of_mem_rowsFrom hr, compiledAt_of_mem_rowsFrom hr⟩
  refine ⟨nodup_record h.distinct, ?_, ?_, ?_⟩
  · intro r hr
    rcases hrows hr with ⟨hold, hne⟩ | ⟨hunit, -⟩
    · obtain ⟨u, hu, hur⟩ := h.owned r hold
      exact ⟨u, mem_record.mpr (.inr ⟨hu, hur ▸ hne⟩), hur⟩
    · exact ⟨⟨unit, compiledAt⟩, mem_record.mpr (.inl rfl), hunit.symm⟩
  · intro r hr u hu hur
    rcases hrows hr with ⟨hold, hne⟩ | ⟨hunit, htime⟩ <;>
      rcases mem_record.mp hu with rfl | ⟨hu, hother⟩
    · exact absurd hur.symm hne
    · exact h.stamped r hold u hu hur
    · exact htime
    · exact absurd (hur.trans hunit) hother
  · intro other
    by_cases hother : other = unit
    · subst hother
      rw [filter_manifests_saved]
      exact numbered_rowsFrom hnodup
    · rw [filter_manifests_save hother]
      exact h.numbered other

/-- Of distinct units each has one row. -/
lemma filter_unit_eq {rows : List UnitRow} (h : (rows.map (·.unit)).Nodup) {row : UnitRow}
    (hrow : row ∈ rows) : rows.filter (·.unit = row.unit) = [row] := by
  induction rows with
  | nil => cases hrow
  | cons first rest ih =>
    obtain ⟨hnew, hrest⟩ := List.nodup_cons.mp h
    have hother : ∀ other ∈ rest, other.unit ≠ first.unit := by
      intro other hmem heq
      exact hnew (List.mem_map.mpr ⟨other, hmem, heq⟩)
    rcases List.mem_cons.mp hrow with rfl | hrow
    · have hnone : rest.filter (·.unit = row.unit) = [] := by simpa using hother
      rw [List.filter_cons_of_pos (by simp), hnone]
    · rw [List.filter_cons_of_neg (by simpa using (hother row hrow).symm)]
      exact ih hrest hrow

/-- After a save there are the unit's row and the rows of its manifest. -/
lemma Consistent.about_saved {db next : Database} {unit compiledAt : Text} {es : Entries}
    (h : db.Consistent) (hsave : db.save unit compiledAt es = .ok next) :
    next.about unit = ([⟨unit, compiledAt⟩], rowsFrom unit compiledAt 0 es) := by
  have hdistinct := (h.save hsave).distinct
  obtain ⟨-, rfl⟩ := save_eq_ok.mp hsave
  have hunits := filter_unit_eq hdistinct (mem_record.mpr (.inl rfl))
  rw [about, filter_manifests_saved, hunits]

end Database

/-! ### Requests -/

/-- The tables after a request to their store: a save that succeeds puts its own in their place. -/
def Request.alter (db : Database) : Request → Database
  | .save false now unit manifest => (db.save unit now.text manifest).toOption.getD db
  | _ => db

namespace Request

variable {db : Database}

/-- A save succeeds if its caller has not given up and no name is repeated; otherwise the tables
are left. -/
lemma alter_save_cases (db : Database) (canceled : Bool) (now : Instant) (unit : Text)
    (manifest : Entries) :
    (canceled = false ∧ manifest.names.Nodup) ∧
        db.save unit now.text manifest = .ok (alter db (.save canceled now unit manifest)) ∨
      ¬ (canceled = false ∧ manifest.names.Nodup) ∧
        alter db (.save canceled now unit manifest) = db := by
  cases canceled with
  | true => exact .inr ⟨by simp, rfl⟩
  | false =>
    rw [alter]
    cases hsave : db.save unit now.text manifest with
    | ok next => exact .inl ⟨⟨rfl, (Database.save_eq_ok.mp hsave).1⟩, rfl⟩
    | error name => exact .inr ⟨by simp [Database.not_nodup_of_save_error hsave], rfl⟩

variable {canceled : Bool} {now : Instant} {unit : Text} {manifest : Entries}

/-- A save leaves the rows of other units, also if it is given up or refused. -/
lemma about_alter_save {other : Text} (hne : other ≠ unit) :
    (alter db (.save canceled now unit manifest)).about other = db.about other := by
  rcases alter_save_cases db canceled now unit manifest with ⟨-, hsave⟩ | ⟨-, hsame⟩
  · exact Database.about_save hsave hne
  · rw [hsame]

/-- A save that succeeds leaves the rows of its own manifest in place of those of the unit. -/
lemma about_alter_save_self (h : db.Consistent) :
    (alter db (.save canceled now unit manifest)).about unit =
      if canceled = false ∧ manifest.names.Nodup then
        ([⟨unit, now.text⟩], Database.rowsFrom unit now.text 0 manifest)
      else db.about unit := by
  rcases alter_save_cases db canceled now unit manifest with ⟨hgood, hsave⟩ | ⟨hbad, hsame⟩
  · rw [if_pos hgood]
    exact h.about_saved hsave
  · rw [if_neg hbad, hsame]

end Request

lemma TableStore.Seated.tables_save {path : Text} {s : TableStore} {t : FileTree}
    (h : Seated path s t) (canceled : Bool) (now : Instant) (unit : Text) (manifest : Entries) :
    (s.save t canceled now unit manifest).1.1.tables (s.save t canceled now unit manifest).1.2 =
      Request.alter (s.tables t) (.save canceled now unit manifest) := by
  cases canceled with
  | true =>
    simp only [TableStore.save, h.obstacle_eq_canceled, Request.alter]
  | false =>
    simp only [TableStore.save, h.obstacle_eq_none, Request.alter]
    cases (s.tables t).save unit now.text manifest with
    | ok next => exact (h.replace next).2
    | error name => rfl

namespace Archive

variable {a : Archive} {m : Saves} {db : Database}

lemma Keeps.tables_handle (h : a.Keeps m) (hdb : a.tables? = some db) {r : Request}
    (hlasting : a.settings.database = ":memory:" → r ≠ .reopen) :
    (a.handle r).1.tables? = some (r.alter db) := by
  cases r with
  | save canceled now unit manifest =>
    obtain ⟨settings, outDir, store, tree⟩ := a
    obtain ⟨-, s, hstore, hseated, -⟩ := h
    cases hstore
    cases hdb
    exact congrArg some (hseated.tables_save canceled now unit manifest)
  | load canceled unit => exact hdb
  | list canceled => exact hdb
  | reopen =>
    rw [h.reopen fun hmemory => hlasting hmemory rfl]
    exact hdb

lemma Keeps.tables_after (h : a.Keeps m) (hdb : a.tables? = some db) {history : List Request}
    (hlasting : a.settings.database = ":memory:" → Request.reopen ∉ history) :
    (a.after history).tables? = some (history.foldl Request.alter db) := by
  induction history generalizing a m db with
  | nil => exact hdb
  | cons r rest ih =>
    obtain ⟨hfirst, hnext, hrest⟩ := h.handle_cons hlasting
    exact ih hnext (h.tables_handle hdb hfirst) hrest

end Archive

end SheetFormula
