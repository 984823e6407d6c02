import SheetFormula.Formula.Output

/-!
# Tables of manifests

A database has a row for each saved unit and a row for each entry of a manifest. Entries are unique
by unit and name.
-/

namespace SheetFormula

/-- A saved unit, with the time of its last save. -/
structure UnitRow where
  unit : Text
  compiledAt : Text
deriving DecidableEq, Repr

structure ManifestRow where
  unit : Text
  name : Text
  position : Nat
  formula : Text
  compiledAt : Text
deriving DecidableEq, Repr

structure Database where
  units : List UnitRow := []
  manifests : List ManifestRow := []
deriving DecidableEq, Repr

namespace Database

/-- Removes the manifest of a unit. -/
def clear (db : Database) (unit : Text) : Database :=
  { db with manifests := db.manifests.filter (·.unit ≠ unit) }

/-- Records the time of a unit's save. -/
def record (db : Database) (row : UnitRow) : Database :=
  if db.units.any (·.unit = row.unit) then
    { db with units := db.units.map fun r => if r.unit = row.unit then row else r }
  else { db with units := db.units ++ [row] }

/-- Adds an entry; one with the unit and the name of another is refused. -/
def insert? (db : Database) (row : ManifestRow) : Option Database :=
  if db.manifests.any fun r => r.unit = row.unit && r.name = row.name then none
  else some { db with manifests := db.manifests ++ [row] }

/-- Adds the entries of a manifest, the first one at a position; the name that is refused is the
error. -/
def insertAll (unit compiledAt : Text) :
    (position : Nat) → Entries → Database → Except Text Database
  | _, [], db => .ok db
  | position, e :: rest, db =>
    match db.insert? ⟨unit, e.name, position, e.formula, compiledAt⟩ with
    | some next => insertAll unit compiledAt (position + 1) rest next
    | none => .error e.name

/-- Saves the manifest of a unit in place of an earlier one. -/
def save (db : Database) (unit compiledAt : Text) (manifest : Entries) : Except Text Database :=
  insertAll unit compiledAt 0 manifest ((db.clear unit).record ⟨unit, compiledAt⟩)

/-- The manifest of a unit that has been saved. -/
def load? (db : Database) (unit : Text) : Option Entries :=
  if db.units.any (·.unit = unit) then
    let rows := db.manifests.filter (·.unit = unit)
    some ((rows.mergeSort fun a b => a.position ≤ b.position).map fun r => ⟨r.name, r.formula⟩)
  else none

/-- The latest save comes first; of two at the same time the one with the lesser name. -/
def laterFirst (a b : UnitRow) : Bool :=
  b.compiledAt < a.compiledAt || (a.compiledAt = b.compiledAt && a.unit ≤ b.unit)

/-- The saved units, the latest first. -/
def unitNames (db : Database) : List Text := (db.units.mergeSort laterFirst).map (·.unit)

end Database

end SheetFormula
