import SheetFormula.Diagnostic.Template

/-!
# The catalog of diagnostics

Every failure of reading or compiling a unit has a stable code. The catalog gives each code its
class, its message and its hints.
-/

namespace SheetFormula

namespace Diagnostic

/-- The families of failures that callers tell apart. -/
inductive Class where
  /-- A kind of node that has no formula. -/
  | node
  /-- An assignment to an existing binding. -/
  | reassignment
  /-- Returns or statements outside the single-return subset. -/
  | controlFlow
  /-- An operator that formulas do not have. -/
  | operator
  /-- A declaration that cannot become a `LET` pair. -/
  | binding
  /-- A malformed export. -/
  | exporting
  /-- A tree that could not be read. -/
  | tree
deriving DecidableEq, Repr

namespace Class

def name : Class → Text
  | .node => "unsupported-node"
  | .reassignment => "reassignment"
  | .controlFlow => "control-flow"
  | .operator => "operator"
  | .binding => "binding"
  | .exporting => "export"
  | .tree => "tree"

def all : List Class :=
  [.node, .reassignment, .controlFlow, .operator, .binding, .exporting, .tree]

end Class

/-- What the catalog knows of a code. -/
structure Definition where
  code : Text
  cls : Class
  message : Template
  hints : List Template := []
deriving DecidableEq, Repr

open Template.Piece (text slot)

/-- All definitions, ascending by code. -/
def catalog : List Definition :=
  [{ code := "ASSIGN-0001", cls := .reassignment
     message := [text "cannot reassign ", slot "Target",
       text ": formula bindings are immutable"]
     hints := [[text "declare a new name instead: const ", slot "Target", text "2 = ..."]] },
   { code := "BIND-0001", cls := .binding
     message := [text "'", slot "Name", text "' is declared more than once in the same scope"] },
   { code := "BIND-0002", cls := .binding
     message := [text "'", slot "Name", text "' is declared without a value"]
     hints := [[text "const ", slot "Name", text " = <expression>"]] },
   { code := "BIND-0003", cls := .binding
     message := [text "destructuring declarations are not supported, got ", slot "Kind"] },
   { code := "BIND-0004", cls := .binding
     message := [text "'", slot "Name", text "' is reserved for the entry formula"]
     hints := [[text "rename the declaration"]] },
   { code := "EXPORT-0001", cls := .exporting
     message := [text "named export must declare a value"]
     hints := [[text "export const NAME = <expression>"]] },
   { code := "EXPORT-0002", cls := .exporting
     message := [text "module has no default export"]
     hints := [[text "export default <expression>"]] },
   { code := "EXPORT-0003", cls := .exporting
     message := [text "module has more than one default export"] },
   { code := "EXPORT-0004", cls := .exporting
     message := [text "'", slot "Name", text "' is exported more than once"] },
   { code := "FLOW-0001", cls := .controlFlow
     message := [text "function body has no return value"]
     hints := [[text "end the body with a single `return <expression>`"]] },
   { code := "FLOW-0002", cls := .controlFlow
     message := [text "function body has ", slot "Count",
       text " return statements, only one is allowed"]
     hints := [[text "combine the branches with a conditional: return test ? a : b"]] },
   { code := "FLOW-0003", cls := .controlFlow
     message := [slot "Kind", text " is not allowed in ", slot "Where"]
     hints := [[text "only const declarations and one return statement are supported"]] },
   { code := "FLOW-0004", cls := .controlFlow
     message := [text "declaration of ", slot "Name",
       text " after the return statement is unreachable"] },
   { code := "NODE-0001", cls := .node
     message := [text "unsupported node kind ", slot "Kind"]
     hints := [[slot "Hint"]] },
   { code := "NODE-0002", cls := .node
     message := [text "function parameters must be plain identifiers, got ", slot "Kind"]
     hints := [[text "(a, b) => ..."]] },
   { code := "OP-0001", cls := .operator
     message := [text "operator '", slot "Operator", text "' has no formula equivalent"]
     hints := [[text "supported operators: ", slot "Supported"]] },
   { code := "TREE-0001", cls := .tree
     message := [text "invalid syntax tree: ", slot "Reason"] },
   { code := "TREE-0002", cls := .tree
     message := [slot "Kind", text " is missing required field '", slot "Field", text "'"] },
   { code := "TREE-0003", cls := .tree
     message := [text "tree root must be a Program, got ", slot "Kind"]
     hints := [[text "parse with sourceType: \"module\""]] }]

def definition? (code : Text) : Option Definition := catalog.find? (·.code == code)

end Diagnostic

end SheetFormula
