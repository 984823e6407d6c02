import SheetFormula.Fault
import SheetFormula.Formula.Binding
import SheetFormula.Formula.MemberMode

/-!
# Formulas of expressions

Every kind of node has one rule that gives its formula, or a reason why there is none. The rules go
from the leaves up: a statement is first summed up with the formulas of its parts, failed or not,
and a body then decides which of them it needs and which failure comes first.
-/

namespace SheetFormula

/-- The formula of a node, and the arguments that the node gives to an `INDEX` call when it is the
object of a property access. -/
structure Lowered where
  formula : Text
  path : List Text
deriving DecidableEq, Repr

/-- A node that is no property access is a single argument. -/
def Lowered.single (formula : Text) : Lowered := ⟨formula, [formula]⟩

/-- A property access, from its object and its key. -/
def Lowered.member (mode : MemberMode) (object key : Lowered) : Lowered :=
  let arguments := object.path ++ [key.formula]
  { formula := Formula.call "INDEX" arguments
    path := match mode with
      | .nested => arguments
      | .twoLevel => [object.formula, key.formula] }

/-- What a statement contributes to the body that it stands in. -/
inductive Statement where
  /-- A declaration: the text of its first name, and its bindings with their positions. -/
  | declare (pos : Position) (subject : Text)
      (bindings : Except Diagnostic (List (Position × Binding)))
  | ret (pos : Position) (value : Except Diagnostic Text)
  | exportDefault (pos : Position) (value : Except Diagnostic Text)
  | exportNamed (pos : Position) (bindings : Except Diagnostic (List (Position × Binding)))
  | expression (pos : Position) (value : Except Diagnostic Text)
  /-- A statement of an unsupported kind. -/
  | other (pos : Position) (kind : Text)
  /-- A node that is no statement. -/
  | misplaced (pos : Position) (kind : Text)

namespace Formula

def operators : List Text := ["+", "-", "*", "/", ">", "<", ">=", "<="]

/-- Why a statement cannot stand in a body. Only an empty statement can. -/
def reject (place : Text) : Statement → Except Diagnostic Unit
  | .other pos kind =>
    if kind = "EmptyStatement" then .ok () else .error ((Fault.unsupportedKind kind).reportAt pos)
  | .expression pos value => do
    let _ ← value
    .error ((Fault.misplaced "ExpressionStatement" place).reportAt pos)
  | .declare pos .. => .error ((Fault.misplaced "VariableDeclaration" place).reportAt pos)
  | .ret pos _ => .error ((Fault.misplaced "ReturnStatement" place).reportAt pos)
  | .exportDefault pos _ =>
    .error ((Fault.misplaced "ExportDefaultDeclaration" place).reportAt pos)
  | .exportNamed pos _ => .error ((Fault.misplaced "ExportNamedDeclaration" place).reportAt pos)
  | .misplaced pos kind => .error ((Fault.misplaced kind place).reportAt pos)

/-- The bindings of a scope with those of one more declaration; a name is bound once. -/
def extend (scope : List Binding) : List (Position × Binding) → Except Diagnostic (List Binding)
  | [] => .ok scope
  | (pos, b) :: rest =>
    if scope.any (·.name = b.name) then .error ((Fault.redeclared b.name).reportAt pos)
    else extend (scope ++ [b]) rest

/-- What a function body has come to: its bindings and its returns, in order. -/
structure Body where
  scope : List Binding := []
  returns : List (Position × Except Diagnostic Text) := []

def Body.push (body : Body) : Statement → Except Diagnostic Body
  | .declare pos subject bindings => do
    if !body.returns.isEmpty then throw ((Fault.unreachable subject).reportAt pos)
    let scope ← extend body.scope (← bindings)
    return { body with scope := scope }
  | .ret pos value => .ok { body with returns := body.returns ++ [(pos, value)] }
  | s => do
    reject "a function body" s
    return body

/-- The formula of a function body: its bindings around its single return value. -/
def block (pos : Position) (statements : List Statement) : Except Diagnostic Text := do
  let body ← statements.foldlM Body.push {}
  match body.returns with
  | [] => throw (Fault.noReturn.reportAt pos)
  | [(_, value)] => return letIn body.scope (← value)
  | _ :: (second, _) :: _ => throw ((Fault.manyReturns body.returns.length).reportAt second)

/-- The text of the first name of a declaration, for messages. -/
def subject : List (Declarator Node) → Text
  | [] => []
  | d :: _ => d.id.render

mutual

/-- The formula of a node. -/
def lower (mode : MemberMode) : Node → Except Diagnostic Lowered
  | .identifier _ name => .ok (.single name)
  | .literal _ raw => .ok (.single raw)
  | .binary pos left operator right =>
    if operators.contains operator then do
      let l ← lower mode left
      let r ← lower mode right
      return .single (l.formula ++ " " ++ operator ++ " " ++ r.formula)
    else .error ((Fault.unknownOperator operator).reportAt pos)
  | .conditional _ test consequent alternate => do
    let t ← lower mode test
    let c ← lower mode consequent
    let a ← lower mode alternate
    return .single (call "IF" [t.formula, c.formula, a.formula])
  | .call _ callee arguments => do
    let f ← lower mode callee
    let xs ← lowerAll mode arguments
    return .single (call f.formula xs)
  | .member _ object property _ => do
    let o ← lower mode object
    let k ← lower mode property
    return .member mode o k
  | .sequence _ expressions => do
    let xs ← lowerAll mode expressions
    return .single (Text.join ":" xs)
  | .arrow _ params body => do
    let names ← parameters params
    let b ← lower mode body
    return .single (call "LAMBDA" (names ++ [b.formula]))
  | .block pos body => (block pos (statements mode body)).map .single
  | .ret pos argument => (returned mode pos argument).map .single
  | .expression _ inner => do
    let x ← lower mode inner
    return .single x.formula
  | .exportDefault _ inner => do
    let x ← lower mode inner
    return .single x.formula
  | .assignment pos left _ _ => .error ((Fault.reassigned left.render).reportAt pos)
  | .other pos kind => .error ((Fault.unsupportedKind kind).reportAt pos)
  | .declaration pos .. =>
    .error ((Fault.misplaced "VariableDeclaration" "expression position").reportAt pos)
  | .declarator d =>
    .error ((Fault.misplaced "VariableDeclarator" "expression position").reportAt d.pos)
  | .exportNamed pos _ =>
    .error ((Fault.misplaced "ExportNamedDeclaration" "expression position").reportAt pos)
  | .program pos _ => .error ((Fault.misplaced "Program" "expression position").reportAt pos)

def lowerAll (mode : MemberMode) : List Node → Except Diagnostic (List Text)
  | [] => .ok []
  | n :: rest => do
    let x ← lower mode n
    let xs ← lowerAll mode rest
    return x.formula :: xs

/-- The names of parameters, which are all plain identifiers. -/
def parameters : List Node → Except Diagnostic (List Text)
  | [] => .ok []
  | .identifier _ name :: rest => do
    let names ← parameters rest
    return name :: names
  | n :: _ => .error ((Fault.parameterKind n.kind).reportAt n.pos)

def returned (mode : MemberMode) (pos : Position) : Option Node → Except Diagnostic Text
  | none => .error (Fault.noReturn.reportAt pos)
  | some n => do
    let x ← lower mode n
    return x.formula

def binding (mode : MemberMode) : Declarator Node → Except Diagnostic Binding
  | ⟨_, .identifier _ name, some init⟩ => do
    let x ← lower mode init
    return ⟨name, x.formula⟩
  | ⟨pos, .identifier _ name, none⟩ => .error ((Fault.noInitialValue name).reportAt pos)
  | ⟨pos, id, _⟩ => .error ((Fault.destructured id.kind).reportAt pos)

/-- The bindings of a declaration, with the positions of their names. -/
def bindings (mode : MemberMode) :
    List (Declarator Node) → Except Diagnostic (List (Position × Binding))
  | [] => .ok []
  | d :: rest => do
    let b ← binding mode d
    let bs ← bindings mode rest
    return (d.pos, b) :: bs

/-- The bindings that a named export declares. -/
def exported (mode : MemberMode) (pos : Position) :
    Option Node → Except Diagnostic (List (Position × Binding))
  | some (.declaration _ _ (d :: rest)) => do
    let b ← binding mode d
    let bs ← bindings mode rest
    return (d.pos, b) :: bs
  | some (.other p kind) => .error ((Fault.unsupportedKind kind).reportAt p)
  | _ => .error (Fault.exportedNothing.reportAt pos)

/-- What a node contributes to a body as a statement. -/
def statement (mode : MemberMode) : Node → Statement
  | .declaration pos _ declarators =>
    .declare pos (subject declarators) (bindings mode declarators)
  | .ret pos argument => .ret pos (returned mode pos argument)
  | .exportDefault pos inner => .exportDefault pos ((lower mode inner).map (·.formula))
  | .exportNamed pos inner => .exportNamed pos (exported mode pos inner)
  | .expression pos inner => .expression pos ((lower mode inner).map (·.formula))
  | .other pos kind => .other pos kind
  | n => .misplaced n.pos n.kind

def statements (mode : MemberMode) : List Node → List Statement
  | [] => []
  | n :: rest => statement mode n :: statements mode rest

end

/-- The formula of a node that may be missing. -/
def ofNode (mode : MemberMode) : Option Node → Except Diagnostic Text
  | none => .error (Fault.badTree .missingNode).report
  | some n => (lower mode n).map (·.formula)

end Formula

end SheetFormula
