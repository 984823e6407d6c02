import SheetFormula.Text

/-!
# Syntax trees

The closed set of nodes that a unit is made of. Required children are always there; children that
may be missing are optional. A node of any other kind is kept as its kind and its position, so that
it can be reported.
-/

namespace SheetFormula

/-- Where a node stands in its source. Lines and columns count from 1; line 0 means unknown. -/
structure Position where
  line : Int64 := 0
  column : Int64 := 0
  start : Int64 := 0
  stop : Int64 := 0
deriving DecidableEq, Repr

/-- Line and column, or a dash when they are unknown. -/
def Position.show (p : Position) : Text :=
  if 0 < p.line then Text.ofInt p.line.toInt ++ ":" ++ Text.ofInt p.column.toInt else "-"

/-- One name of a declaration with its value, if it has one. -/
structure Declarator (α : Type) where
  pos : Position
  id : α
  init : Option α
deriving Repr

inductive Node where
  | program (pos : Position) (body : List Node)
  | identifier (pos : Position) (name : Text)
  /-- A string or number exactly as it is written. -/
  | literal (pos : Position) (raw : Text)
  | binary (pos : Position) (left : Node) (operator : Text) (right : Node)
  | conditional (pos : Position) (test consequent alternate : Node)
  | call (pos : Position) (callee : Node) (arguments : List Node)
  | member (pos : Position) (object property : Node) (computed : Bool)
  | sequence (pos : Position) (expressions : List Node)
  | arrow (pos : Position) (params : List Node) (body : Node)
  | block (pos : Position) (body : List Node)
  | declaration (pos : Position) (keyword : Text) (declarators : List (Declarator Node))
  | declarator (d : Declarator Node)
  | ret (pos : Position) (argument : Option Node)
  | expression (pos : Position) (inner : Node)
  | assignment (pos : Position) (left : Node) (operator : Text) (right : Node)
  | exportDefault (pos : Position) (inner : Node)
  | exportNamed (pos : Position) (inner : Option Node)
  /-- A node of a kind that has no place in a unit. -/
  | other (pos : Position) (kind : Text)
deriving Repr

/-- A whole unit: the statements of a module. -/
structure Program where
  pos : Position
  body : List Node
deriving Repr

/-- A program as the root of a tree. -/
def Program.toNode (p : Program) : Node := .program p.pos p.body

namespace Node

def pos : Node → Position
  | program p _ | identifier p _ | literal p _ | binary p _ _ _ | conditional p _ _ _
  | call p _ _ | member p _ _ _ | sequence p _ | arrow p _ _ | block p _ | declaration p _ _
  | ret p _ | expression p _ | assignment p _ _ _ | exportDefault p _ | exportNamed p _
  | other p _ => p
  | declarator d => d.pos

def kind : Node → Text
  | program .. => "Program"
  | identifier .. => "Identifier"
  | literal .. => "Literal"
  | binary .. => "BinaryExpression"
  | conditional .. => "ConditionalExpression"
  | call .. => "CallExpression"
  | member .. => "MemberExpression"
  | sequence .. => "SequenceExpression"
  | arrow .. => "ArrowFunctionExpression"
  | block .. => "BlockStatement"
  | declaration .. => "VariableDeclaration"
  | declarator .. => "VariableDeclarator"
  | ret .. => "ReturnStatement"
  | expression .. => "ExpressionStatement"
  | assignment .. => "AssignmentExpression"
  | exportDefault .. => "ExportDefaultDeclaration"
  | exportNamed .. => "ExportNamedDeclaration"
  | other _ kind => kind

mutual

/-- The source text that a tree stands for, for messages and listings. -/
def render : Node → Text
  | program _ body => Text.join "\n" (renderAll body)
  | identifier _ name => name
  | literal _ raw => raw
  | binary _ left operator right =>
    "(" ++ left.render ++ " " ++ operator ++ " " ++ right.render ++ ")"
  | conditional _ test consequent alternate =>
    test.render ++ " ? " ++ consequent.render ++ " : " ++ alternate.render
  | call _ callee arguments => callee.render ++ "(" ++ Text.join ", " (renderAll arguments) ++ ")"
  | member _ object property computed =>
    if computed then object.render ++ "[" ++ property.render ++ "]"
    else object.render ++ "." ++ property.render
  | sequence _ expressions => "(" ++ Text.join ", " (renderAll expressions) ++ ")"
  | arrow _ params body => "(" ++ Text.join ", " (renderAll params) ++ ") => " ++ body.render
  | block _ body => "\x7b " ++ Text.eachBefore " " (renderAll body) ++ "\x7d"
  | declaration _ keyword declarators =>
    keyword ++ " " ++ Text.join ", " (renderDeclarators declarators) ++ ";"
  | declarator d => renderDeclarator d
  | ret _ none => "return;"
  | ret _ (some argument) => "return " ++ argument.render ++ ";"
  | expression _ inner => inner.render ++ ";"
  | assignment _ left operator right => left.render ++ " " ++ operator ++ " " ++ right.render
  | exportDefault _ inner => "export default " ++ inner.render
  | exportNamed _ none => "export \x7b\x7d"
  | exportNamed _ (some inner) => "export " ++ inner.render
  | other _ kind => "<" ++ kind ++ ">"

def renderAll : List Node → List Text
  | [] => []
  | n :: rest => n.render :: renderAll rest

def renderDeclarator : Declarator Node → Text
  | ⟨_, id, none⟩ => id.render
  | ⟨_, id, some init⟩ => id.render ++ " = " ++ init.render

def renderDeclarators : List (Declarator Node) → List Text
  | [] => []
  | d :: rest => renderDeclarator d :: renderDeclarators rest

end

/-- One line of a listing of a tree. -/
structure Entry where
  depth : Nat
  kind : Text
  pos : Position
deriving DecidableEq, Repr

/-- The line of a node itself. -/
def entry (depth : Nat) (n : Node) : Entry := ⟨depth, n.kind, n.pos⟩

mutual

/-- The nodes below a node, whose children are at the given depth: a node before its children and
these in order. -/
def descendants (depth : Nat) : Node → List Entry
  | identifier .. | literal .. | other .. => []
  | binary _ left _ right | assignment _ left _ right =>
    left.entry depth :: left.descendants (depth + 1)
      ++ right.entry depth :: right.descendants (depth + 1)
  | conditional _ test consequent alternate =>
    test.entry depth :: test.descendants (depth + 1)
      ++ consequent.entry depth :: consequent.descendants (depth + 1)
      ++ alternate.entry depth :: alternate.descendants (depth + 1)
  | call _ callee arguments =>
    callee.entry depth :: callee.descendants (depth + 1) ++ listAll depth arguments
  | member _ object property _ =>
    object.entry depth :: object.descendants (depth + 1)
      ++ property.entry depth :: property.descendants (depth + 1)
  | arrow _ params body =>
    listAll depth params ++ body.entry depth :: body.descendants (depth + 1)
  | program _ body | block _ body => listAll depth body
  | sequence _ expressions => listAll depth expressions
  | declaration _ _ declarators => listDeclarators depth declarators
  | declarator d => belowDeclarator depth d
  | ret _ inner | exportNamed _ inner => listOption depth inner
  | expression _ inner | exportDefault _ inner =>
    inner.entry depth :: inner.descendants (depth + 1)

def listAll (depth : Nat) : List Node → List Entry
  | [] => []
  | n :: rest => n.entry depth :: n.descendants (depth + 1) ++ listAll depth rest

/-- A node that may be missing and what is below it. -/
def listOption (depth : Nat) : Option Node → List Entry
  | none => []
  | some n => n.entry depth :: n.descendants (depth + 1)

def belowDeclarator (depth : Nat) : Declarator Node → List Entry
  | ⟨_, id, init⟩ => id.entry depth :: id.descendants (depth + 1) ++ listOption depth init

def listDeclarators (depth : Nat) : List (Declarator Node) → List Entry
  | [] => []
  | d :: rest =>
    (declarator d).entry depth :: belowDeclarator (depth + 1) d ++ listDeclarators depth rest

end

/-- Every node of a tree with its depth. -/
def listing (n : Node) : List Entry := n.entry 0 :: n.descendants 1

end Node

end SheetFormula
