import SheetFormula.Artifact
import SheetFormula.Entries.Decode
import SheetFormula.Failure
import SheetFormula.Instant
import SheetFormula.Settings

/-!
# Manifest stores

Manifests are kept in a file for each unit, or in one database. A store is opened on a file tree;
saving changes the tree or the database in memory.
-/

namespace SheetFormula

/-- Manifests in files. -/
structure FileStore where
  format : Format
  outDir : Text := []
deriving DecidableEq, Repr

namespace FileStore

def path (s : FileStore) (unit : Text) : Text :=
  artifactPath s.outDir unit (".exports." ++ s.format.name)

/-- Saves the manifest of a unit; the directory is made first. -/
def save (s : FileStore) (t : FileTree) (unit : Text) (manifest : Entries) :
    FileTree × Option Failure :=
  match manifest.encode s.format with
  | .error e => (t, some (.during ("encoding manifest for " ++ unit) (.stated e.message)))
  | .ok content =>
    match t.makeDirectory (Path.dir (s.path unit)) with
    | .error (e, t) => (t, some (.during "creating manifest directory" (.file e)))
    | .ok t =>
      match t.write (s.path unit) content with
      | .error e => (t, some (.during "writing manifest" (.file e)))
      | .ok t => (t, none)

def load (s : FileStore) (t : FileTree) (unit : Text) : Except Failure (Option Entries) :=
  match t.read (s.path unit) with
  | .error e =>
    if e.fault = .missing then .error (.notStored unit)
    else .error (.during "reading manifest" (.file e))
  | .ok content =>
    (Entries.decode content s.format).mapError fun e =>
      .during ("decoding manifest " ++ s.path unit) (.stated e.message)

end FileStore

/-- Manifests in a database. -/
structure TableStore where
  /-- The path that the store was opened with. -/
  path : Text
  /-- Where the database file is; none for a database in memory. -/
  location : Option Location := none
  /-- The tables of a database in memory. -/
  memory : Database := {}
  isOpen : Bool := true
deriving DecidableEq, Repr

namespace TableStore

/-- The options that are put behind the path of a database file. -/
def openingOptions : Text := "?_pragma=journal_mode(WAL)&_pragma=busy_timeout(5000)"

/-- The file that a path with options names. What follows a question mark is options, unless the
path starts with it. -/
def fileName (path : Text) : Text :=
  match Text.splitAt? "?" (path ++ openingOptions) with
  | some (name, _) => if name.isEmpty then path ++ openingOptions else name
  | none => path

def unopened (reason : Text) : Failure := .during "enabling foreign keys" (.stated reason)

/-- Opens the database at a path; a missing file is created. -/
def openAt (t : FileTree) (path : Text) : Except Failure (TableStore × FileTree) :=
  if path = ":memory:" then .ok ({ path := path }, t)
  else
    match t.locate (fileName path) with
    | .error _ => .error (unopened "unable to open database file: out of memory (14)")
    | .ok l =>
      let store : TableStore := { path := path, location := some l }
      match t.get? l with
      | some .directory => .error (unopened "unable to open database file: out of memory (14)")
      | some (.database _) => .ok (store, t)
      | none => .ok (store, t.put l (.database {}))
      | some (.file content) =>
        if content.isEmpty || Text.startsWith Entry.databaseMark content then
          .ok (store, t.put l (.database {}))
        else .error (unopened "file is not a database (26)")

/-- The tables that the store sees. -/
def tables (s : TableStore) (t : FileTree) : Database :=
  match s.location with
  | none => s.memory
  | some l =>
    match t.get? l with
    | some (.database db) => db
    | _ => {}

/-- Puts tables in place of those that the store sees. -/
def replace (s : TableStore) (t : FileTree) (db : Database) : TableStore × FileTree :=
  match s.location with
  | none => ({ s with memory := db }, t)
  | some l => (s, t.put l (.database db))

/-- Why the database cannot be reached, if it cannot: it is closed, or the caller has given up. -/
def obstacle (s : TableStore) (canceled : Bool) : Option Failure :=
  if !s.isOpen then some (.stated "sql: database is closed")
  else if canceled then some .canceled
  else none

/-- Saves the manifest of a unit at a time. A save that fails changes nothing. -/
def save (s : TableStore) (t : FileTree) (canceled : Bool) (now : Instant) (unit : Text)
    (manifest : Entries) : (TableStore × FileTree) × Option Failure :=
  match s.obstacle canceled with
  | some f => ((s, t), some (.during "beginning manifest transaction" f))
  | none =>
    match (s.tables t).save unit now.text manifest with
    | .ok db => (s.replace t db, none)
    | .error name =>
      ((s, t), some (.during ("saving " ++ name ++ " in " ++ unit)
        (.stated ("constraint failed: UNIQUE constraint failed: "
          ++ "manifests.unit, manifests.name (1555)"))))

def load (s : TableStore) (t : FileTree) (canceled : Bool) (unit : Text) :
    Except Failure Entries :=
  match s.obstacle canceled with
  | some f => .error (.during ("looking up " ++ unit) f)
  | none =>
    match (s.tables t).load? unit with
    | some entries => .ok entries
    | none => .error (.notStored unit)

/-- The saved units, the latest first. -/
def units (s : TableStore) (t : FileTree) (canceled : Bool) : Except Failure (List Text) :=
  match s.obstacle canceled with
  | some f => .error (.during "listing units" f)
  | none => .ok (s.tables t).unitNames

end TableStore

inductive Store where
  | files (s : FileStore)
  | tables (s : TableStore)
deriving DecidableEq, Repr

namespace Store

/-- Opens the store that the settings ask for. -/
def openFor (t : FileTree) (m : ManifestSettings) (outDir : Text) :
    Except Failure (Store × FileTree) :=
  if m.store = "sqlite" then
    (TableStore.openAt t m.database).map fun (s, t) => (tables s, t)
  else if m.store = "" || m.store = "file" then
    match Format.parse m.format with
    | .ok format => .ok (files ⟨format, outDir⟩, t)
    | .error message => .error (.during "manifest store" (.stated message))
  else .error (.during "manifest store" (.stated ("unknown backend " ++ m.store.quoted)))

def save (s : Store) (t : FileTree) (canceled : Bool) (now : Instant) (unit : Text)
    (manifest : Entries) : (Store × FileTree) × Option Failure :=
  match s with
  | files store =>
    if canceled then ((s, t), some .canceled)
    else
      let (t, failure) := store.save t unit manifest
      ((s, t), failure)
  | tables store =>
    let ((store, t), failure) := store.save t canceled now unit manifest
    ((tables store, t), failure)

def load (s : Store) (t : FileTree) (canceled : Bool) (unit : Text) :
    Except Failure (Option Entries) :=
  match s with
  | files store => if canceled then .error .canceled else store.load t unit
  | tables store => (store.load t canceled unit).map some

/-- The saved units; files do not tell. -/
def units (s : Store) (t : FileTree) (canceled : Bool) : Except Failure (Option (List Text)) :=
  match s with
  | files _ => .ok none
  | tables store => (store.units t canceled).map some

/-- The path of a unit's manifest, or of the database. -/
def path (s : Store) (unit : Text) : Text :=
  match s with
  | files store => store.path unit
  | tables store => store.path

/-- Closes the store. Files need no closing; tables in memory are lost. -/
def close : Store → Store
  | files store => files store
  | tables store => tables { store with isOpen := false, memory := {} }

end Store

end SheetFormula
