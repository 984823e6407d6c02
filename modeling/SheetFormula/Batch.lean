import SheetFormula.Failure
import SheetFormula.Formula.Output
import SheetFormula.Log
import SheetFormula.Tree.Decode

/-!
# Compiling files

A file is read, decoded and compiled; what goes wrong carries its path. In a batch each path is a
task of its own: it starts unless the batch has been cancelled, and hands its result over. A task
that is told to stop ends the batch.
-/

namespace SheetFormula

structure CompileOptions where
  mode : OutputMode := .packed
  members : MemberMode := .nested
deriving DecidableEq, Repr

abbrev CompileResult := Except UnitFailure Output

namespace FileTree

def decodeFile (t : FileTree) (path : Text) : Except UnitFailure Program := do
  let content ← (t.read path).mapError fun e => .failure (.during "reading syntax tree" (.file e))
  (Tree.decode content).mapError fun d => .diagnostic (d.inFile path)

def compileFile (t : FileTree) (options : CompileOptions) (path : Text) : CompileResult := do
  let program ← t.decodeFile path
  (Output.ofProgram options.mode options.members (some program)).mapError fun d =>
    .diagnostic (d.inFile path)

end FileTree

namespace Batch

/-- The line that is logged when a file has been compiled. -/
def progress (mode : OutputMode) (path : Text) : CompileResult → LogLine
  | .error _ => ⟨.debug, "failed " ++ path⟩
  | .ok o =>
    ⟨.debug, "compiled " ++ path ++ " (" ++ mode.name ++ ", "
      ++ Text.ofNat o.manifest.length ++ " exports)"⟩

/-- What surrounds a batch: whether it has been cancelled, where lines are logged, and who takes the
results. -/
structure Surroundings (σ : Type) where
  isCanceled : σ → Bool
  log : σ → LogLine → σ
  /-- Takes a result, and may stop the batch. -/
  deliver : σ → Text → CompileResult → σ × Option Failure

/-- Runs the tasks of a batch one after the other. -/
def run {σ : Type} (around : Surroundings σ) (mode : OutputMode) (compile : Text → CompileResult) :
    (paths : List Text) → σ → σ × Option Failure
  | [], s => (s, none)
  | path :: rest, s =>
    if around.isCanceled s then (s, some .canceled)
    else
      let result := compile path
      match around.deliver (around.log s (progress mode path result)) path result with
      | (s, none) => run around mode compile rest s
      | (s, some f) => (s, some f)

end Batch

end SheetFormula
