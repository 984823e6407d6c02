import SheetFormula.Diagnostic
import SheetFormula.FileTree

/-!
# Failures of a run

What can go wrong around the compilation of a unit, each with the activities during which it
happened.
-/

namespace SheetFormula

inductive Failure where
  | file (e : FileError)
  /-- No manifest has been stored for a unit. -/
  | notStored (unit : Text)
  | canceled
  | stated (message : Text)
  /-- A failure in the course of an activity. -/
  | during (activity : Text) (f : Failure)
deriving DecidableEq, Repr

namespace Failure

/-- The kinds of failure that callers tell apart. -/
inductive Kind where
  | notStored
  | canceled
  | missingFile
  | other
deriving DecidableEq, Repr

/-- The kind of a failure, whatever the activity. -/
def kind : Failure → Kind
  | file e => if e.fault = .missing then .missingFile else .other
  | notStored _ => .notStored
  | canceled => .canceled
  | stated _ => .other
  | during _ f => f.kind

def message : Failure → Text
  | file e => e.message
  | notStored unit => unit ++ ": manifest not found"
  | canceled => "context canceled"
  | stated message => message
  | during activity f => activity ++ ": " ++ f.message

end Failure

/-- Why a unit has no output. -/
inductive UnitFailure where
  /-- Its tree cannot be read or compiled. -/
  | diagnostic (d : Diagnostic)
  | failure (f : Failure)
deriving DecidableEq, Repr

end SheetFormula
