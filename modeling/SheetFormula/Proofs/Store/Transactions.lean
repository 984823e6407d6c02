import SheetFormula.Proofs.Store.Consistency

/-!
# Saves as transactions

A save makes its edits one by one, in a transaction: it removes the entries of its unit, records the
time, and adds the new entries. It works on tables of its own, which take the place of the committed
ones when all edits have been made. An edit that is refused ends the transaction, and so does a
caller that gives up, at any point; then the committed tables stay. There is one connection, so a
save waits for another to end.

Whatever happens on the connection, the committed tables change by whole saves only, and the two
tables agree at any time.
-/

namespace SheetFormula

namespace Database

/-! ### Edits -/

/-- What a transaction does to the tables. -/
inductive Edit where
  | clear (unit : Text)
  | record (row : UnitRow)
  | insert (row : ManifestRow)

/-- The tables after an edit, unless it is refused. -/
def edit? (db : Database) : Edit → Option Database
  | .clear unit => some (db.clear unit)
  | .record row => some (db.record row)
  | .insert row => db.insert? row

/-- The tables after some edits, unless one is refused. -/
def editAll? (db : Database) (edits : List Edit) : Option Database := edits.foldlM edit? db

def saveEdits (unit compiledAt : Text) (manifest : Entries) : List Edit :=
  .clear unit :: .record ⟨unit, compiledAt⟩ :: (rowsFrom unit compiledAt 0 manifest).map .insert

lemma editAll_cons (db : Database) (edit : Edit) (rest : List Edit) :
    db.editAll? (edit :: rest) = (db.edit? edit).bind fun next => next.editAll? rest :=
  List.foldlM_cons

lemma length_saveEdits (unit compiledAt : Text) (manifest : Entries) :
    (saveEdits unit compiledAt manifest).length = manifest.length + 2 := by
  have hlength : (rowsFrom unit compiledAt 0 manifest).length = manifest.length := by
    rw [← congrArg List.length (entries_rowsFrom 0 manifest), List.length_map]
  simp [saveEdits, hlength]

lemma editAll_inserts (unit compiledAt : Text) (position : Nat) (es : Entries) (db : Database) :
    db.editAll? ((rowsFrom unit compiledAt position es).map .insert) =
      (insertAll unit compiledAt position es db).toOption := by
  induction es generalizing position db with
  | nil => rfl
  | cons e rest ih =>
    rw [rowsFrom, List.map_cons, editAll_cons, insertAll, edit?]
    cases db.insert? ⟨unit, e.name, position, e.formula, compiledAt⟩ with
    | none => rfl
    | some next => exact ih (position + 1) next

/-- The edits of a save end where the save does. -/
lemma editAll_saveEdits (db : Database) (unit compiledAt : Text) (es : Entries) :
    db.editAll? (saveEdits unit compiledAt es) = (db.save unit compiledAt es).toOption :=
  editAll_inserts unit compiledAt 0 es ((db.clear unit).record ⟨unit, compiledAt⟩)

/-! ### The connection -/

/-- A save under way. -/
structure Transaction where
  unit : Text
  /-- The tables with the edits that have been made. -/
  tables : Database
  /-- The edits that are still to be made. -/
  pending : List Edit

structure Connection where
  committed : Database := {}
  transaction : Option Transaction := none

namespace Connection

/-- What happens on a connection. -/
inductive Event where
  /-- A save begins, unless another one is under way. -/
  | begin (now : Instant) (unit : Text) (manifest : Entries)
  /-- The save makes its next edit, or commits if there is none. -/
  | advance
  /-- The caller gives up. -/
  | cancel

/-- What an event makes of the connection. An edit that is refused ends the save. -/
def step (c : Connection) : Event → Connection
  | .begin now unit manifest =>
    match c.transaction with
    | some _ => c
    | none => { c with transaction := some ⟨unit, c.committed, saveEdits unit now.text manifest⟩ }
  | .advance =>
    match c.transaction with
    | some ⟨unit, tables, edit :: rest⟩ =>
      { c with transaction := (tables.edit? edit).map fun next => ⟨unit, next, rest⟩ }
    | some ⟨_, tables, []⟩ => { committed := tables }
    | none => c
  | .cancel => { c with transaction := none }

def after (c : Connection) (events : List Event) : Connection := events.foldl step c

/-! ### What is committed -/

/-- The tables agree, and what is left of a save ends where the save of some manifest ends. -/
structure Sound (c : Connection) : Prop where
  consistent : c.committed.Consistent
  underway : ∀ tx, c.transaction = some tx → ∃ compiledAt manifest,
    tx.tables.editAll? tx.pending = (c.committed.save tx.unit compiledAt manifest).toOption

variable {c : Connection}

/-- An event leaves the committed tables, or it commits the save under way. -/
lemma Sound.step_cases (h : c.Sound) (event : Event) :
    (c.step event).committed = c.committed ∨
      ∃ tx compiledAt manifest, c.transaction = some tx ∧
        c.committed.save tx.unit compiledAt manifest = .ok (c.step event).committed := by
  obtain ⟨committed, transaction⟩ := c
  cases event with
  | begin now unit manifest => cases transaction <;> exact .inl rfl
  | advance =>
    rcases transaction with - | ⟨unit, tables, - | ⟨edit, rest⟩⟩
    · exact .inl rfl
    · obtain ⟨compiledAt, manifest, hleft⟩ := h.underway _ rfl
      exact .inr ⟨_, compiledAt, manifest, rfl, Result.toOption_eq_some.mp hleft.symm⟩
    · exact .inl rfl
  | cancel => exact .inl rfl

lemma Sound.step (h : c.Sound) (event : Event) : (c.step event).Sound := by
  refine ⟨?_, ?_⟩
  · rcases h.step_cases event with hsame | ⟨tx, compiledAt, manifest, -, hsave⟩
    · rw [hsame]
      exact h.consistent
    · exact h.consistent.save hsave
  · intro tx htx
    obtain ⟨committed, transaction⟩ := c
    cases event with
    | begin now unit manifest =>
      cases transaction with
      | none =>
        cases htx
        exact ⟨now.text, manifest, editAll_saveEdits committed unit now.text manifest⟩
      | some other => exact h.underway tx htx
    | advance =>
      rcases transaction with - | ⟨unit, tables, - | ⟨edit, rest⟩⟩
      · cases htx
      · cases htx
      · obtain ⟨next, hnext, rfl⟩ := Option.map_eq_some_iff.mp htx
        obtain ⟨compiledAt, manifest, hleft⟩ := h.underway _ rfl
        rw [editAll_cons, hnext] at hleft
        exact ⟨compiledAt, manifest, hleft⟩
    | cancel => cases htx

lemma Sound.after (h : c.Sound) (events : List Event) : (c.after events).Sound := by
  induction events generalizing c with
  | nil => exact h
  | cons event rest ih => exact ih (h.step event)

lemma sound_new : Sound {} := ⟨consistent_empty, by simp⟩

/-- An event leaves the committed rows of every unit but the one whose save is under way. -/
lemma Sound.about_step (h : c.Sound) (event : Event) {other : Text}
    (hother : ∀ tx, c.transaction = some tx → tx.unit ≠ other) :
    (c.step event).committed.about other = c.committed.about other := by
  rcases h.step_cases event with hsame | ⟨tx, compiledAt, manifest, htx, hsave⟩
  · rw [hsame]
  · exact about_save hsave (hother tx htx).symm

/-! ### Saves that nothing interrupts -/

lemma step_advance (committed tables : Database) (unit : Text) (edit : Edit) (rest : List Edit) :
    step { committed, transaction := some ⟨unit, tables, edit :: rest⟩ } .advance =
      { committed, transaction := (tables.edit? edit).map fun next => ⟨unit, next, rest⟩ } :=
  rfl

lemma after_advance_idle (db : Database) (n : Nat) :
    after { committed := db } (List.replicate n .advance) = { committed := db } := by
  induction n with
  | zero => rfl
  | succ n ih => exact ih

/-- A save that goes on makes all of its edits and commits, unless one is refused. -/
lemma after_advance (committed tables : Database) (unit : Text) (pending : List Edit) :
    after { committed, transaction := some ⟨unit, tables, pending⟩ }
        (List.replicate (pending.length + 1) .advance) =
      { committed := (tables.editAll? pending).getD committed } := by
  induction pending generalizing tables with
  | nil => rfl
  | cons edit rest ih =>
    rw [List.length_cons, List.replicate_succ, after, List.foldl_cons, step_advance,
      editAll_cons]
    cases tables.edit? edit with
    -- The edit is refused, and what follows finds no save under way.
    | none => exact after_advance_idle committed (rest.length + 1)
    | some next => exact ih next

end Connection

end Database

open Database (Connection)

/-- What happens on the connection for a request that nothing interrupts. A save that its caller has
given up does not begin. -/
def Request.events : Request → List Connection.Event
  | .save false now unit manifest =>
    .begin now unit manifest :: List.replicate (manifest.length + 3) .advance
  | _ => []

lemma Request.after_events (db : Database) (r : Request) :
    Connection.after { committed := db } r.events = { committed := r.alter db } := by
  cases r with
  | save canceled now unit manifest =>
    cases canceled with
    | true => rfl
    | false =>
      have hadvance := Connection.after_advance db db unit
        (Database.saveEdits unit now.text manifest)
      rw [Database.length_saveEdits, Database.editAll_saveEdits] at hadvance
      exact hadvance
  | load canceled unit => rfl
  | list canceled => rfl
  | reopen => rfl

/-- The tables of a store are those of the connection. -/
lemma Request.after_all_events (db : Database) (history : List Request) :
    Connection.after { committed := db } (history.flatMap Request.events) =
      { committed := history.foldl Request.alter db } := by
  induction history generalizing db with
  | nil => rfl
  | cons r rest ih =>
    rw [List.flatMap_cons, Connection.after, List.foldl_append]
    exact (congrArg (Connection.after · _) (r.after_events db)).trans (ih (r.alter db))

/-- The two tables agree at any time. Whatever happens on the connection to a new database, with
saves that begin at any times and are given up or refused at any point, the committed tables are
consistent, and an event leaves the rows of every unit but the one that is being saved. A store of
tables commits what the connection does if nothing interrupts a save; so after any history of
requests on a new database its tables are consistent, and a save leaves the rows of all other units
and replaces those of its own if it succeeds. -/
theorem tables_stay_consistent :
    (∀ events : List Connection.Event,
      (Connection.after {} events).committed.Consistent ∧
      ∀ event other,
        (∀ tx, (Connection.after {} events).transaction = some tx → tx.unit ≠ other) →
        ((Connection.after {} events).step event).committed.about other =
          (Connection.after {} events).committed.about other) ∧
    ∀ (settings : ManifestSettings) (outDir : Text) (t : FileTree) (a : Archive)
      (history : List Request),
      settings.store = "sqlite" → Archive.openFor settings outDir t = .ok a →
      a.tables? = some {} → (settings.database = ":memory:" → Request.reopen ∉ history) →
      ∃ db, (a.after history).tables? = some db ∧ db.Consistent ∧
        db = (Connection.after {} (history.flatMap Request.events)).committed ∧
        ∀ canceled now unit manifest, ∃ next,
          ((a.after history).handle (.save canceled now unit manifest)).1.tables? = some next ∧
          (∀ other, other ≠ unit → next.about other = db.about other) ∧
          next.about unit =
            if canceled = false ∧ manifest.names.Nodup then
              ([⟨unit, now.text⟩], Database.rowsFrom unit now.text 0 manifest)
            else db.about unit := by
  have hsound : ∀ events, (Connection.after {} events).Sound :=
    fun events => Connection.sound_new.after events
  constructor
  · intro events
    exact ⟨(hsound events).consistent, fun event other => (hsound events).about_step event⟩
  · intro settings outDir t a history hstore hopen hnew hlasting
    obtain ⟨hstart, hsettings⟩ := Archive.keeps_openFor hstore hopen hnew
    have hlasting : a.settings.database = ":memory:" → Request.reopen ∉ history :=
      hsettings ▸ hlasting
    have hafter : (a.after history).tables? =
        some (Connection.after {} (history.flatMap Request.events)).committed := by
      rw [Request.after_all_events]
      exact hstart.tables_after hnew hlasting
    refine ⟨_, hafter, (hsound _).consistent, rfl, ?_⟩
    intro canceled now unit manifest
    have hhandle := (hstart.after hlasting).tables_handle hafter
      (r := .save canceled now unit manifest) (by simp)
    exact ⟨_, hhandle, fun other hne => Request.about_alter_save hne,
      Request.about_alter_save_self (hsound _).consistent⟩

/-- A unit is saved; a second save of it is given up after an entry has been added; a third one is
refused, for a repeated name; and the save of another unit is about to commit. -/
def interruptedEvents : List Connection.Event :=
  [.begin ⟨20⟩ "a" [⟨"X", "=1"⟩, ⟨"Y", "=2"⟩], .advance, .advance, .advance, .advance, .advance,
   .begin ⟨30⟩ "a" [⟨"X", "=3"⟩, ⟨"Z", "=4"⟩], .advance, .advance, .advance, .cancel,
   .begin ⟨40⟩ "a" [⟨"X", "=5"⟩, ⟨"X", "=6"⟩], .advance, .advance, .advance, .advance,
   .begin ⟨10⟩ "b" [⟨"X", "=7"⟩], .advance, .advance, .advance]

theorem interrupted_saves_stay_consistent :
    ((Connection.after {} interruptedEvents).committed.Consistent ∧
      (Connection.after {} interruptedEvents).committed.manifests =
        [⟨"a", "X", 0, "=1", Instant.text ⟨20⟩⟩, ⟨"a", "Y", 1, "=2", Instant.text ⟨20⟩⟩]) ∧
    ((∀ tx, (Connection.after {} interruptedEvents).transaction = some tx → tx.unit ≠ "a") ∧
      ((Connection.after {} interruptedEvents).step .advance).committed.units =
        [⟨"a", Instant.text ⟨20⟩⟩, ⟨"b", Instant.text ⟨10⟩⟩] ∧
      ((Connection.after {} interruptedEvents).step .advance).committed.about "a" =
        (Connection.after {} interruptedEvents).committed.about "a") ∧
    ∃ a, Archive.openFor { store := "sqlite", database := "m.db" } [] {} = .ok a ∧
      a.tables? = some {} ∧
      ∃ db, (a.after mixedHistory).tables? = some db ∧ db.Consistent ∧
        ∃ next, ((a.after mixedHistory).handle
            (.save false ⟨50⟩ "b" [⟨"X", "=8"⟩])).1.tables? = some next ∧
          next.about "a" = db.about "a" ∧
          next.about "b" =
            ([⟨"b", Instant.text ⟨50⟩⟩], [⟨"b", "X", 0, "=8", Instant.text ⟨50⟩⟩]) := by
  obtain ⟨hconnection, hstore⟩ := tables_stay_consistent
  obtain ⟨hconsistent, habout⟩ := hconnection interruptedEvents
  refine ⟨⟨hconsistent, rfl⟩, ?_, ?_⟩
  · have hother : ∀ tx, (Connection.after {} interruptedEvents).transaction = some tx →
        tx.unit ≠ "a" := by
      rintro tx ⟨⟩
      decide
    exact ⟨hother, rfl, habout .advance "a" hother⟩
  · obtain ⟨a, hopen, hnew⟩ : ∃ a,
        Archive.openFor { store := "sqlite", database := "m.db" } [] {} = .ok a ∧
          a.tables? = some {} := ⟨_, rfl, rfl⟩
    have hlasting : ("m.db" : Text) = ":memory:" → Request.reopen ∉ mixedHistory :=
      fun h => absurd h (by decide)
    obtain ⟨db, hdb, hagree, -, hsave⟩ := hstore _ _ _ a mixedHistory rfl hopen hnew hlasting
    obtain ⟨next, hnext, hothers, hown⟩ := hsave false ⟨50⟩ "b" [⟨"X", "=8"⟩]
    exact ⟨a, hopen, hnew, db, hdb, hagree, next, hnext, hothers "a" (by decide), hown⟩

end SheetFormula
