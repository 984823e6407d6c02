import SheetFormula.Discovery
import SheetFormula.Failure
import SheetFormula.Log

/-!
# Watching for changes

A watcher has a set of directories, a timer for each path that has changed lately, and a queue of
paths whose timers have run out. Changes and expiries are fed to it one by one.
-/

namespace SheetFormula

/-- What happened to a path. -/
inductive Change where
  | create
  | write
  | remove
  | rename
  | chmod
deriving DecidableEq, Repr

structure Watcher where
  /-- The watched directories with the paths that they were found at. -/
  watched : List (Location × Text) := []
  /-- The paths with running timers. -/
  pending : List Text := []
  /-- The paths that wait for delivery. -/
  queue : List Text := []
  log : Log := []
deriving DecidableEq, Repr

namespace Watcher

/-- Watches a directory. One that is watched already keeps its path. -/
def add (w : Watcher) (dir : Location × Text) : Watcher :=
  if w.watched.any (·.1 = dir.1) then w
  else { w with watched := w.watched ++ [(dir.1, Path.clean dir.2)] }

/-- Watches the directory at a path and its visible subdirectories. -/
def addBelow (w : Watcher) (t : FileTree) (root : Text) : Except FileError Watcher :=
  match t.locate root with
  | .error fault => .error ⟨"lstat", root, fault⟩
  | .ok l =>
    match t.get? l with
    | none => .error ⟨"lstat", root, .missing⟩
    | some .directory => .ok ((t.directoriesBelow root l).foldl add w)
    | some _ => .ok w

/-- Adds a line to the log. -/
def tell (w : Watcher) (severity : Severity) (message : Text) : Watcher :=
  { w with log := w.log ++ [⟨severity, message⟩] }

/-- Starts to watch directories. What has been logged is there also when one of them fails. -/
def start (t : FileTree) : (dirs : List Text) → Watcher → Watcher × Option Failure
  | [], w => (w, none)
  | dir :: rest, w =>
    match w.addBelow t dir with
    | .error e => (w, some (.during ("watching " ++ dir) (.file e)))
    | .ok w => start t rest (w.tell .info ("watching " ++ dir))

/-- Starts the timer of a path, or starts it again. -/
def schedule (w : Watcher) (path : Text) : Watcher :=
  if w.pending.contains path then w else { w with pending := w.pending ++ [path] }

/-- Takes note of changes to a path. A new directory is watched; a new or written file that counts
gets a timer. -/
def handle (w : Watcher) (t : FileTree) (counts : Text → Bool) (path : Text)
    (changes : List Change) : Watcher :=
  if !(changes.contains .create || changes.contains .write) then w
  else if changes.contains .create && (t.find path).toOption.any Entry.isDirectory then
    match w.addBelow t path with
    | .ok w => w
    | .error e => w.tell .error ("failed to watch " ++ path ++ ": " ++ e.message)
  else if counts path then w.schedule path
  else w

/-- Lets the timer of a path run out: the path is queued if the timer was running. An expiry is one
step of the timer that is pending now. The action of a timer that ran out just before it was started
again, and that has begun but not ended, is not modelled. -/
def expire (w : Watcher) (path : Text) : Watcher :=
  if w.pending.contains path then
    { w with pending := w.pending.filter (· ≠ path), queue := w.queue ++ [path] }
  else w

def stop (w : Watcher) : Watcher := { w with pending := [] }

/-- Delivers the queued paths in order and stops. -/
def deliver (w : Watcher) : Watcher × List Text :=
  let told := w.queue.foldl (fun w path => w.tell .info ("changed: " ++ path)) w
  ({ told with queue := [], pending := [] }, w.queue)

end Watcher

end SheetFormula
