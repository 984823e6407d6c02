import SheetFormula.Fault
import SheetFormula.Json.Reader
import SheetFormula.Text.Blank

/-!
# Reading syntax trees

A tree is read from JSON objects with a `type` and the fields of that type. All objects share one
set of fields, so a field of the wrong type spoils an object of any kind; of a repeated field the
last one counts. The children are looked at only where the kind of a node needs them.
-/

namespace SheetFormula

namespace Tree

open Json (Name Value)

/-- What a value is as a node: a failure, nothing for null, or a tree. -/
abbrev Outcome := Except Diagnostic (Option Node)

/-- A member of an object, with what its value is as a node and as a list of nodes. -/
structure Member where
  name : Name
  value : Value
  node : Outcome
  items : Option (List Outcome)

abbrev Members := List Member

def listFields : List Text := ["arguments", "expressions", "params", "declarations"]

def textFields : List Text := ["type", "name", "operator", "kind"]

/-! ### Small objects: positions and spellings -/

/-- The field that a name of a small object stands for: letter case does not matter in ASCII. -/
def smallField (name : Name) : Text :=
  name.toText.map fun b : UInt8 => if 'A' ≤ b && b ≤ 'Z' then b + 32 else b

/-- The members of a small object; every name in it is quoted. -/
def smallMembers? : Value → Option (List (Text × Value))
  | .object members => members.mapM fun (name, v) =>
    if name = .null then none else some (smallField name, v)
  | _ => none

/-- The value of an integer field: null leaves it as it was. -/
def int? (before : Int64) : Value → Option Int64
  | .null => some before
  | .number spelling => Json.int64? spelling
  | _ => none

/-- Line and column of a place, on top of those known before. -/
def place? (before : Int64 × Int64) : Value → Option (Int64 × Int64)
  | .null => some before
  | v => do
    let members ← smallMembers? v
    members.foldlM (fun (line, column) (field, v) =>
      if field = "line" then (int? line v).map (·, column)
      else if field = "column" then (int? column v).map (line, ·)
      else some (line, column)) before

/-- Line and column of a location, on top of those known before; null forgets them. -/
def location? (before : Option (Int64 × Int64)) : Value → Option (Option (Int64 × Int64))
  | .null => some none
  | v => do
    let members ← smallMembers? v
    let place ← members.foldlM (fun place (field, v) =>
      if field = "start" then place? place v else some place) (before.getD (0, 0))
    return some place

/-- A text that may be null. -/
def text? : Value → Option (Option Text)
  | .null => some none
  | .string t => some (some t)
  | _ => none

/-- The spelling in a small object, on top of the one known before; null forgets it. -/
def spelling? (before : Option Text) : Value → Option (Option Text)
  | .null => some none
  | v => do
    let members ← smallMembers? v
    members.foldlM (fun raw (field, v) => if field = "raw" then text? v else some raw) before

/-! ### The fields of a node -/

/-- The field that a name stands for: letter case does not matter. -/
def Member.field (m : Member) : Text := m.name.toText.lower

/-- Whether a value may stand in a field. -/
def fits (field : Text) (v : Value) : Bool :=
  if textFields.contains field || field = "raw" then (text? v).isSome
  else if field = "start" || field = "end" then (int? 0 v).isSome
  else if field = "loc" then (location? none v).isSome
  else if field = "extra" then (spelling? none v).isSome
  else if field = "computed" then
    match v with
    | .null | .bool _ => true
    | _ => false
  else if listFields.contains field then
    match v with
    | .null | .array _ => true
    | _ => false
  else true

namespace Members

/-- The values of a field, in order. -/
def values (ms : Members) (field : Text) : List Value :=
  (ms.filter (·.field = field)).map (·.value)

def last? (ms : Members) (field : Text) : Option Member :=
  ms.reverse.find? (·.field = field)

/-- The text of a field, empty when it is null or not there. -/
def text (ms : Members) (field : Text) : Text :=
  match ms.last? field with
  | some ⟨_, .string t, _, _⟩ => t
  | _ => []

/-- The integer of a field, zero when it is not there. -/
def int (ms : Members) (field : Text) : Int64 :=
  (ms.values field).foldl (fun n v => (int? n v).getD n) 0

/-- Whether a field was last set to true. -/
def flag (ms : Members) (field : Text) : Bool :=
  (ms.values field).foldl (fun b v =>
    match v with
    | .bool b => b
    | _ => b) false

/-- Line and column of the node; columns are stored from 0. -/
def pos (ms : Members) : Position :=
  let location := (ms.values "loc").foldl (fun l v => (location? l v).getD l) none
  match location with
  | some (line, column) =>
    if 0 < line then ⟨line, column + 1, ms.int "start", ms.int "end"⟩
    else ⟨0, 0, ms.int "start", ms.int "end"⟩
  | none => ⟨0, 0, ms.int "start", ms.int "end"⟩

/-- The spelling of a literal, of its own or from the object beside it. -/
def spelling (ms : Members) : Option Text :=
  match ms.last? "raw" with
  | some ⟨_, .string t, _, _⟩ => some t
  | _ => (ms.values "extra").foldl (fun raw v => (spelling? raw v).getD raw) none

def child (ms : Members) (field : Text) : Outcome :=
  match ms.last? field with
  | some m => m.node
  | none => .ok none

/-- The failure of a node that lacks a field. -/
def missing (ms : Members) (field : Text) : Diagnostic :=
  (Fault.missingField (ms.text "type") field).reportAt ms.pos

/-- A node that has to be there. -/
def require (ms : Members) (field : Text) : Outcome → Except Diagnostic Node
  | .error e => .error e
  | .ok none => .error (ms.missing field)
  | .ok (some n) => .ok n

def required (ms : Members) (field : Text) : Except Diagnostic Node :=
  ms.require field (ms.child field)

/-- The nodes of a list field; a hole in the list counts as missing. -/
def list (ms : Members) (field : Text) : Except Diagnostic (List Node) :=
  match (ms.last? field).bind (·.items) with
  | some items => items.mapM (ms.require field)
  | none => .ok []

def declarators (ms : Members) : Except Diagnostic (List (Declarator Node)) :=
  match (ms.last? "declarations").bind (·.items) with
  | some items =>
    items.mapM fun item => do
      match ← item with
      | some (.declarator d) => return d
      | _ => throw (Fault.badTree .foreignDeclarator).report
  | none => .ok []

/-- The node of a type. -/
def build (ms : Members) : Except Diagnostic Node := do
  let kind := ms.text "type"
  let pos := ms.pos
  if kind = "Program" then
    return .program pos (← ms.list "body")
  else if kind = "Identifier" then
    let name := ms.text "name"
    if name.isEmpty then throw (ms.missing "name")
    return .identifier pos name
  else if kind = "Literal" then
    match ms.spelling with
    | some raw => return .literal pos raw
    | none => throw (ms.missing "raw")
  else if kind = "BinaryExpression" then
    let left ← ms.required "left"
    let right ← ms.required "right"
    return .binary pos left (ms.text "operator") right
  else if kind = "AssignmentExpression" then
    let left ← ms.required "left"
    let right ← ms.required "right"
    return .assignment pos left (ms.text "operator") right
  else if kind = "ConditionalExpression" then
    let test ← ms.required "test"
    let consequent ← ms.required "consequent"
    let alternate ← ms.required "alternate"
    return .conditional pos test consequent alternate
  else if kind = "CallExpression" then
    let callee ← ms.required "callee"
    let arguments ← ms.list "arguments"
    return .call pos callee arguments
  else if kind = "MemberExpression" then
    let object ← ms.required "object"
    let property ← ms.required "property"
    return .member pos object property (ms.flag "computed")
  else if kind = "SequenceExpression" then
    return .sequence pos (← ms.list "expressions")
  else if kind = "ArrowFunctionExpression" then
    let params ← ms.list "params"
    let body ← ms.required "body"
    return .arrow pos params body
  else if kind = "BlockStatement" then
    return .block pos (← ms.list "body")
  else if kind = "VariableDeclaration" then
    return .declaration pos (ms.text "kind") (← ms.declarators)
  else if kind = "VariableDeclarator" then
    let id ← ms.required "id"
    let init ← ms.child "init"
    return .declarator ⟨pos, id, init⟩
  else if kind = "ReturnStatement" then
    return .ret pos (← ms.child "argument")
  else if kind = "ExpressionStatement" then
    return .expression pos (← ms.required "expression")
  else if kind = "ExportDefaultDeclaration" then
    return .exportDefault pos (← ms.required "declaration")
  else if kind = "ExportNamedDeclaration" then
    return .exportNamed pos (← ms.child "declaration")
  else
    return .other pos kind

/-- The node of an object: its fields have to fit, and it has to have a type. -/
def node (ms : Members) : Except Diagnostic Node :=
  if !ms.all fun m => fits m.field m.value then throw (Fault.badTree .notJson).report
  else if (ms.text "type").isEmpty then throw (Fault.badTree .untypedNode).report
  else ms.build

end Members

/-! ### From values to nodes -/

mutual

/-- What a value is as a node. -/
def outcome : Value → Outcome
  | .null => .ok none
  | .object members => (Members.node (membersOf members)).map some
  | .bool _ | .number _ | .string _ | .array _ => .error (Fault.badTree .notJson).report

def outcomes : List Value → List Outcome
  | [] => []
  | v :: rest => outcome v :: outcomes rest

/-- What a value is as a list of nodes. -/
def itemsOf : Value → Option (List Outcome)
  | .array items => some (outcomes items)
  | .null | .bool _ | .number _ | .string _ | .object _ => none

def membersOf : List (Name × Value) → Members
  | [] => []
  | (name, v) :: rest => ⟨name, v, outcome v, itemsOf v⟩ :: membersOf rest

end

/-! ### Documents -/

/-- Whether a small object holds clean values; its own names may be of any spelling. -/
def cleanSmall (inner : Text → Value → Bool) : Value → Bool
  | .object members => members.all fun (name, v) => inner (smallField name) v
  | v => v.clean

/-- Whether the value of a field of the root holds raw control characters only in names where
they are allowed. -/
def cleanField (field : Text) (v : Value) : Bool :=
  if field = "loc" then
    cleanSmall (fun field v =>
      if field = "start" then cleanSmall (fun _ v => v.clean) v else v.clean) v
  else if field = "extra" then cleanSmall (fun _ v => v.clean) v
  else v.clean

/-- Whether the names of a root object and of all below it are clean. -/
def cleanRoot (members : List (Name × Value)) : Bool :=
  members.all fun (name, v) =>
    match name with
    | .raw _ => false
    | .text _ | .null => cleanField name.toText.lower v

/-- The depth that counts for a field of the root: the brackets of a list field do not. -/
def fieldDepth (field : Text) (v : Value) : Nat :=
  match v with
  | .array items => if listFields.contains field then Value.depthAll items else v.depth
  | _ => v.depth

/-- How deep a tree may be nested. -/
def maxDepth : Nat := 10000

/-- Whether a root object is not nested too deeply. -/
def shallow (members : List (Name × Value)) : Bool :=
  members.all fun (name, v) => fieldDepth name.toText.lower v < maxDepth

/-- The tree of a root value. -/
def root (v : Value) : Except Diagnostic Node :=
  match v with
  | .null => .error (Fault.badTree .untypedNode).report
  | .object members =>
    if cleanRoot members && shallow members then Members.node (membersOf members)
    else .error (Fault.badTree .notJson).report
  | .bool _ | .number _ | .string _ | .array _ => .error (Fault.badTree .notJson).report

/-- Reads a tree whose root is a node of any kind. -/
def decodeNode (t : Text) : Except Diagnostic Node :=
  if t.trimStart.isEmpty then .error (Fault.badTree .emptyInput).report
  else if (Text.dropStart? "null" t.trimStart).map Text.trimStart = some [] then
    .error (Fault.badTree .nullRoot).report
  else
    match Json.document? t with
    | some v => root v
    | none => .error (Fault.badTree .notJson).report

/-- Reads a tree whose root is a program. -/
def decode (t : Text) : Except Diagnostic Program :=
  match decodeNode t with
  | .error e => .error e
  | .ok (.program pos body) => .ok ⟨pos, body⟩
  | .ok n => .error ((Fault.rootKind n.kind).reportAt n.pos)

end Tree

end SheetFormula
