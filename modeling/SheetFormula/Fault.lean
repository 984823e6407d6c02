import SheetFormula.Diagnostic
import SheetFormula.Tree.Node

/-!
# Causes of failure

What can be wrong with a unit, each cause with its code in the catalog and the values that its
message mentions.
-/

namespace SheetFormula

/-- Why a text is not a syntax tree. -/
inductive TreeFlaw where
  | emptyInput
  | nullRoot
  | untypedNode
  | foreignDeclarator
  | noProgram
  | missingNode
  /-- The text is not JSON, or a field has the wrong type. -/
  | notJson
deriving DecidableEq, Repr

def TreeFlaw.reason : TreeFlaw → Text
  | .emptyInput => "empty input"
  | .nullRoot => "root is null"
  | .untypedNode => "node without a type"
  | .foreignDeclarator => "VariableDeclaration contains a non-declarator"
  | .noProgram => "no program"
  | .missingNode => "missing node"
  | .notJson => "<json>"

/-- A cause of failure. -/
inductive Fault where
  | unsupportedKind (kind : Text)
  | parameterKind (kind : Text)
  | reassigned (target : Text)
  | noReturn
  | manyReturns (count : Nat)
  | misplaced (kind place : Text)
  | unreachable (name : Text)
  | unknownOperator (operator : Text)
  | redeclared (name : Text)
  | noInitialValue (name : Text)
  | destructured (kind : Text)
  | reserved (name : Text)
  | exportedNothing
  | noDefaultExport
  | manyDefaultExports
  | exportedTwice (name : Text)
  | badTree (flaw : TreeFlaw)
  | missingField (kind field : Text)
  | rootKind (kind : Text)
deriving DecidableEq, Repr

namespace Fault

/-- What to write instead of an unsupported kind of node. -/
def kindHints : List (Text × Text) :=
  let loop : Text := "use MAP, REDUCE or SCAN with a LAMBDA instead of a loop"
  [("ForStatement", loop),
   ("ForOfStatement", loop),
   ("ForInStatement", loop),
   ("WhileStatement", loop),
   ("DoWhileStatement", loop),
   ("IfStatement", "use a conditional expression: return test ? a : b"),
   ("FunctionDeclaration", "use an arrow function: const f = (x) => ..."),
   ("FunctionExpression", "use an arrow function: (x) => ..."),
   ("LogicalExpression", "use AND(a, b) or OR(a, b)"),
   ("UnaryExpression", "write the operation as a binary expression, e.g. 0 - x"),
   ("UpdateExpression", "declare a new name: const next = x + 1"),
   ("TemplateLiteral", "use CONCAT(...)"),
   ("ClassDeclaration", "classes have no formula equivalent"),
   ("AwaitExpression", "formulas are evaluated synchronously")]

/-- The operators that formulas have, as one text. -/
def operatorList : Text := "+ - * / > < >= <="

def code : Fault → Text
  | unsupportedKind _ => "NODE-0001"
  | parameterKind _ => "NODE-0002"
  | reassigned _ => "ASSIGN-0001"
  | noReturn => "FLOW-0001"
  | manyReturns _ => "FLOW-0002"
  | misplaced .. => "FLOW-0003"
  | unreachable _ => "FLOW-0004"
  | unknownOperator _ => "OP-0001"
  | redeclared _ => "BIND-0001"
  | noInitialValue _ => "BIND-0002"
  | destructured _ => "BIND-0003"
  | reserved _ => "BIND-0004"
  | exportedNothing => "EXPORT-0001"
  | noDefaultExport => "EXPORT-0002"
  | manyDefaultExports => "EXPORT-0003"
  | exportedTwice _ => "EXPORT-0004"
  | badTree _ => "TREE-0001"
  | missingField .. => "TREE-0002"
  | rootKind _ => "TREE-0003"

/-- The values that the message of a cause mentions. -/
def data : Fault → Option Data
  | unsupportedKind kind =>
    match kindHints.lookup kind with
    | some hint => some [("Kind", .text kind), ("Hint", .text hint)]
    | none => some [("Kind", .text kind)]
  | parameterKind kind | destructured kind | rootKind kind => some [("Kind", .text kind)]
  | reassigned target => some [("Target", .text target)]
  | manyReturns count => some [("Count", .int count)]
  | misplaced kind place => some [("Kind", .text kind), ("Where", .text place)]
  | unreachable name | redeclared name | noInitialValue name | reserved name
  | exportedTwice name => some [("Name", .text name)]
  | unknownOperator operator =>
    some [("Operator", .text operator), ("Supported", .text operatorList)]
  | badTree flaw => some [("Reason", .text flaw.reason)]
  | missingField kind field => some [("Kind", .text kind), ("Field", .text field)]
  | noReturn | exportedNothing | noDefaultExport | manyDefaultExports => none

/-- The diagnostic of a cause at an unknown place. -/
def report (f : Fault) : Diagnostic := Diagnostic.ofCode f.code f.data

def reportAt (f : Fault) (p : Position) : Diagnostic := f.report.atPlace p.line p.column

end Fault

end SheetFormula
