import SheetFormula.Formula.Lower

/-!
# Compiled units

A program becomes its module bindings, the formula of its default export, and its named exports.
Formulas have no module scope, so every named export carries the module bindings itself.
-/

namespace SheetFormula

structure CompiledUnit where
  /-- Module bindings, in the order of their declaration. -/
  bindings : List Binding
  /-- The default export, without the module bindings around it. -/
  main : Text
  /-- Named exports, each with the module bindings around it. -/
  exports : List Binding
deriving DecidableEq, Repr

namespace Formula

/-- What a module has come to. -/
structure Module where
  scope : List Binding := []
  main : Option (Except Diagnostic Text) := none
  named : List (Position × Except Diagnostic (List (Position × Binding))) := []

def Module.push (m : Module) : Statement → Except Diagnostic Module
  | .declare _ _ bindings => do
    let scope ← extend m.scope (← bindings)
    return { m with scope := scope }
  | .exportDefault pos value =>
    if m.main.isSome then .error (Fault.manyDefaultExports.reportAt pos)
    else .ok { m with main := some value }
  | .exportNamed pos bindings => .ok { m with named := m.named ++ [(pos, bindings)] }
  | s => do
    reject "the module top level" s
    return m

/-- The exports so far with those of one more export statement; a name is exported once. -/
def exportAll (scope : List Binding) (pos : Position) (done : List Binding) :
    List (Position × Binding) → Except Diagnostic (List Binding)
  | [] => .ok done
  | (_, b) :: rest =>
    if done.any (·.name = b.name) then .error ((Fault.exportedTwice b.name).reportAt pos)
    else exportAll scope pos (done ++ [⟨b.name, letIn scope b.formula⟩]) rest

def exports (scope : List Binding) :
    List (Position × Except Diagnostic (List (Position × Binding))) →
    Except Diagnostic (List Binding) :=
  List.foldlM (fun done (pos, bindings) => do exportAll scope pos done (← bindings)) []

def compile (mode : MemberMode) (p : Program) : Except Diagnostic CompiledUnit := do
  let m ← (statements mode p.body).foldlM Module.push {}
  match m.main with
  | none => throw (Fault.noDefaultExport.reportAt p.pos)
  | some main =>
    let main ← main
    let named ← exports m.scope m.named
    return ⟨m.scope, main, named⟩

end Formula

end SheetFormula
