import SheetFormula.Path
import SheetFormula.Store.Database

/-!
# File trees

The files of a machine as a value: what stands at each location, and the directory that relative
paths start from. There are no links, so a location has one path from the root. Operations fail for
faults of the path only: rights, space and the medium itself are never in the way.
-/

namespace SheetFormula

/-- The components of a place, from the root on. -/
abbrev Location := List Text

inductive Entry where
  | directory
  | file (content : Text)
  | database (tables : Database)
deriving DecidableEq, Repr

namespace Entry

def isDirectory : Entry → Bool
  | directory => true
  | _ => false

/-- How a database file starts. -/
def databaseMark : Text := "SQLite format 3\x00"

end Entry

/-- Why a path cannot be used. -/
inductive PathFault where
  | missing
  | notDirectory
  | isDirectory
  /-- A path with a zero byte. -/
  | invalid
  | nameTooLong
deriving DecidableEq, Repr

def PathFault.message : PathFault → Text
  | missing => "no such file or directory"
  | notDirectory => "not a directory"
  | isDirectory => "is a directory"
  | invalid => "invalid argument"
  | nameTooLong => "file name too long"

/-- What was done to which path when it failed. -/
structure FileError where
  action : Text
  path : Text
  fault : PathFault
deriving DecidableEq, Repr

def FileError.message (e : FileError) : Text :=
  e.action ++ " " ++ e.path ++ ": " ++ e.fault.message

/-- The entries of a file system, and the directory that relative paths start from. The root is
always there. -/
structure FileTree where
  entries : List (Location × Entry) := []
  here : Location := []
deriving DecidableEq, Repr

namespace FileTree

def get? (t : FileTree) (l : Location) : Option Entry :=
  if l.isEmpty then some .directory else t.entries.lookup l

def put (t : FileTree) (l : Location) (e : Entry) : FileTree :=
  { t with entries := (l, e) :: t.entries.filter (·.1 ≠ l) }

/-- The longest name of an entry. -/
def maxName : Nat := 255

/-- Follows one component of a path from a directory. -/
def step (t : FileTree) (l : Location) (c : Text) : Except PathFault Location :=
  match t.get? l with
  | none => .error .missing
  | some .directory =>
    if c = "" || c = "." then .ok l
    else if c = ".." then .ok l.dropLast
    else if maxName < c.length then .error .nameTooLong
    else .ok (l ++ [c])
  | some _ => .error .notDirectory

/-- The location of a path. All of it but the last component must be there. -/
def locate (t : FileTree) (p : Text) : Except PathFault Location :=
  if List.elem 0 p then .error .invalid
  else if p.isEmpty then .error .missing
  else (Text.splitOn Path.slash p).foldlM t.step (if Path.isAbsolute p then [] else t.here)

def find (t : FileTree) (p : Text) : Except PathFault Entry := do
  let l ← t.locate p
  match t.get? l with
  | some e => .ok e
  | none => .error .missing

def isThere (t : FileTree) (p : Text) : Bool := (t.find p).toBool

def read (t : FileTree) (p : Text) : Except FileError Text :=
  match t.find p with
  | .ok .directory => .error ⟨"read", p, .isDirectory⟩
  | .ok (.file content) => .ok content
  | .ok (.database _) => .ok Entry.databaseMark
  | .error fault => .error ⟨"open", p, fault⟩

def write (t : FileTree) (p content : Text) : Except FileError FileTree :=
  match t.locate p with
  | .error fault => .error ⟨"open", p, fault⟩
  | .ok l =>
    match t.get? l with
    | some .directory => .error ⟨"open", p, .isDirectory⟩
    | _ => .ok (t.put l (.file content))

/-- Makes the directory at a path whose parent is there. -/
def makeOne (t : FileTree) (p : Text) : Except FileError FileTree :=
  match t.locate p with
  | .error fault => .error ⟨"mkdir", p, fault⟩
  | .ok l =>
    match t.get? l with
    | none => .ok (t.put l .directory)
    | some .directory => .ok t
    | some _ => .error ⟨"mkdir", p, .notDirectory⟩

/-- The path and the directories on the way to it, the outermost first. -/
def onTheWay (p : Text) : List Text :=
  let cs := Path.components p
  let start : Text := if Path.isAbsolute p then [Path.slash] else []
  (List.range cs.length).map fun n => start ++ Text.join [Path.slash] (cs.take (n + 1))

/-- Makes directories one after the other. A failure comes with what has been reached by then: the
directories before the one that cannot be made stay. -/
def makeEach (t : FileTree) : List Text → Except (FileError × FileTree) FileTree
  | [] => .ok t
  | p :: rest =>
    match t.makeOne p with
    | .error e => .error (e, t)
    | .ok t => t.makeEach rest

/-- Makes the directory at a path, with all those on the way to it. -/
def makeDirectory (t : FileTree) (p : Text) : Except (FileError × FileTree) FileTree :=
  t.makeEach (onTheWay p)

/-- Puts a name in its place among names in byte order, unless it is there. -/
def insertName (c : Text) : List Text → List Text
  | [] => [c]
  | d :: rest =>
    if c < d then c :: d :: rest
    else if c = d then d :: rest
    else d :: insertName c rest

/-- The names of what is directly in a directory, in byte order. -/
def names (t : FileTree) (dir : Location) : List Text :=
  let inside := t.entries.filterMap fun (l, _) => if l.dropLast = dir then l.getLast? else none
  inside.foldr insertName []

def isHidden (name : Text) : Bool := name.head? == some '.'

/-- What a walk comes to at a name in a directory: what stands there and, from a directory, what the
walk goes on to. A hidden directory is passed over. -/
def visit (t : FileTree) (goOn : Location → List (Location × Entry)) (dir : Location) (c : Text) :
    List (Location × Entry) :=
  match t.get? (dir ++ [c]) with
  | none => []
  | some .directory =>
    if isHidden c then []
    else ([c], .directory) :: (goOn (dir ++ [c])).map fun (l, e) => (c :: l, e)
  | some e => [([c], e)]

/-- What a walk from a directory comes to, down to some depth, with locations relative to the
directory. The names in a directory are taken in order. Nobody asks whether the directory that the
walk starts from is hidden. -/
def walk (t : FileTree) : (depth : Nat) → (dir : Location) → List (Location × Entry)
  | 0, _ => []
  | depth + 1, dir => (t.names dir).flatMap (t.visit (t.walk depth) dir)

/-- The length of the longest location. No walk goes deeper. -/
def depth (t : FileTree) : Nat := t.entries.foldr (fun (l, _) n => max l.length n) 0

/-- What is in a directory and below, hidden directories and their contents left out. -/
def visible (t : FileTree) (dir : Location) : List (Location × Entry) := t.walk t.depth dir

/-- Component by component, each in byte order; a directory comes before what is in it. -/
def Location.le : Location → Location → Bool
  | [], _ => true
  | _ :: _, [] => false
  | a :: as, b :: bs => if a = b then Location.le as bs else decide (a ≤ b)

/-- What follows the location of a directory, for the locations in it. -/
def relative? : (dir l : Location) → Option Location
  | [], l => some l
  | _ :: _, [] => none
  | a :: as, b :: bs => if a = b then relative? as bs else none

/-- All that is in a directory and below, hidden or not: a selection from the entries, in the order
of a walk. -/
def below (t : FileTree) (dir : Location) : List (Location × Entry) :=
  let inside := t.entries.filterMap fun (l, e) =>
    match relative? dir l with
    | some [] | none => none
    | some rest => some (rest, e)
  inside.mergeSort fun a b => Location.le a.1 b.1

/-- The path of a relative location below a path. -/
def pathBelow (root : Text) (l : Location) : Text := Path.join root (Text.join [Path.slash] l)

end FileTree

end SheetFormula
