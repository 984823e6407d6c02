import SheetFormula.Yaml.Tag
import SheetFormula.Yaml.Token

/-!
# YAML documents

The first document of a stream as a tree of nodes. Aliases point to the nodes with their anchors,
which are kept in a table, because an alias may stand inside the node that it points to.
-/

namespace SheetFormula.Yaml

/-- A node with the line where it starts, counted from 1, and its tag in short form. -/
inductive Node where
  | scalar (line : Nat) (tag value : Text)
  | sequence (line : Nat) (tag : Text) (items : List Node)
  | mapping (line : Nat) (tag : Text) (pairs : List (Node × Node))
  /-- An alias, with the number of the anchor that it points to. -/
  | aliasOf (line column : Nat) (name : Text) (target : Nat)
deriving Repr

namespace Node

def line : Node → Nat
  | scalar line .. | sequence line .. | mapping line .. | aliasOf line .. => line

/-- The text of a scalar or the name of an alias; collections have none. -/
def value : Node → Text
  | scalar _ _ value => value
  | aliasOf _ _ name _ => name
  | sequence .. | mapping .. => []

/-- The number of a node's kind in messages. -/
def kindNumber : Node → Nat
  | sequence .. => 2
  | mapping .. => 4
  | scalar .. => 8
  | aliasOf .. => 16

end Node

/-- A document: its root, and its anchored nodes by number. -/
structure Document where
  root : Node
  anchored : List (Nat × Node) := []
deriving Repr

/-- How far a document has been read. -/
structure Parser where
  tokens : List Token
  /-- The handles of tags with what they stand for. -/
  handles : List (List Char × List Char) := []
  /-- The numbers of anchors by name, the latest first. -/
  anchors : List (List Char × Nat) := []
  anchored : List (Nat × Node) := []
  anchorCount : Nat := 0

namespace Parser

/-- The next token. It is there only if the two tokens behind it could be read as well. -/
def peek? (p : Parser) : Option Token :=
  if (p.tokens.take 3).any (·.kind == .fault) then none else p.tokens.head?

def skip (p : Parser) : Parser := { p with tokens := p.tokens.drop 1 }

def nextIs (p : Parser) (kinds : List TokenKind) : Option Bool :=
  p.peek?.map fun t => kinds.contains t.kind

def shortTag (tag : Text) : Text :=
  match Text.dropStart? "tag:yaml.org,2002:" tag with
  | some rest => "!!" ++ rest
  | none => tag

/-- What stands before the content of a node. -/
structure Properties where
  line : Nat
  anchor : Option (List Char) := none
  tag : Option Text := none

/-- The tag of a handle and a suffix. -/
def tagText? (p : Parser) (handle suffix : List Char) : Option Text :=
  if handle.isEmpty then some (ofChars suffix)
  else
    (p.handles.lookup handle).bind fun start =>
      let tag := ofChars (start ++ suffix)
      if tag.isEmpty then none else some tag

/-- Reads an anchor and a tag, in any order. -/
def properties? (p : Parser) : Option (Properties × Parser) := do
  let first ← p.peek?
  let props : Properties := { line := first.line + 1 }
  match first.kind with
  | .anchor name =>
    let p := p.skip
    let second ← p.peek?
    match second.kind with
    | .tag handle suffix =>
      let tag ← tagText? p handle suffix
      let _ ← p.skip.peek?
      return ({ props with anchor := some name, tag := some tag }, p.skip)
    | _ => return ({ props with anchor := some name }, p)
  | .tag handle suffix =>
    let p := p.skip
    let second ← p.peek?
    let tag ← tagText? p handle suffix
    match second.kind with
    | .anchor name =>
      let _ ← p.skip.peek?
      return ({ props with anchor := some name, tag := some tag }, p.skip)
    | _ => return ({ props with tag := some tag }, p)
  | _ => return (props, p)

/-- The tag of a node, in short form, when one other than `!` was given. -/
def Properties.explicitTag (props : Properties) : Option Text :=
  match props.tag with
  | none => none
  | some tag => if tag.isEmpty || tag = "!" then none else some (shortTag tag)

/-- The tag of a scalar. -/
def Properties.scalarTag (props : Properties) (isPlain : Bool) (value : Text) : Text :=
  props.explicitTag.getD
    (if !isPlain then "!!str" else if value = "<<" then "!!merge" else implicitTag value)

/-- Gives a number to the anchor of a node that is about to be read. -/
def declare (p : Parser) (props : Properties) : Parser :=
  match props.anchor with
  | none => p
  | some name =>
    { p with anchors := (name, p.anchorCount) :: p.anchors, anchorCount := p.anchorCount + 1 }

/-- Keeps a node that has been read under the number of its anchor. -/
def keep (p : Parser) (props : Properties) (number : Nat) (n : Node) : Node × Parser :=
  match props.anchor with
  | none => (n, p)
  | some _ => (n, { p with anchored := (number, n) :: p.anchored })

def empty (line : Nat) : Node := .scalar line "!!null" []

/-- A node of which only the properties are there. -/
def bare (props : Properties) (number : Nat) (p : Parser) : Option (Node × Parser) :=
  if props.anchor.isSome || props.tag.any (!·.isEmpty) then
    some ((p.declare props).keep props number (.scalar props.line (props.scalarTag true []) []))
  else none

mutual

/-- Reads a node. A block may hold block collections; the value of a key may be a sequence that is
not indented. -/
def node : (rounds : Nat) → (block indentless : Bool) → Parser → Option (Node × Parser)
  | 0, _, _, _ => none
  | rounds + 1, block, indentless, p => do
    let first ← p.peek?
    match first.kind with
    | .aliasOf name =>
      let target ← p.anchors.lookup name
      return (.aliasOf (first.line + 1) (first.column + 1) (ofChars name) target, p.skip)
    | _ =>
      let (props, p) ← p.properties?
      let t ← p.peek?
      let number := p.anchorCount
      match t.kind with
      | .scalar isPlain value =>
        let value := ofChars value
        return (p.declare props).skip.keep props number
          (.scalar props.line (props.scalarTag isPlain value) value)
      | .flowSequenceStart =>
        let (items, p) ← flowSequence rounds true [] (p.declare props).skip
        return p.keep props number (.sequence props.line (props.explicitTag.getD "!!seq") items)
      | .flowMappingStart =>
        let (pairs, p) ← flowMapping rounds true [] (p.declare props).skip
        return p.keep props number (.mapping props.line (props.explicitTag.getD "!!map") pairs)
      | .blockEntry =>
        if indentless then
          let (items, p) ← indentlessSequence rounds [] (p.declare props)
          return p.keep props number (.sequence props.line (props.explicitTag.getD "!!seq") items)
        else bare props number p
      | .blockSequenceStart =>
        if block then
          let (items, p) ← blockSequence rounds [] (p.declare props).skip
          return p.keep props number (.sequence props.line (props.explicitTag.getD "!!seq") items)
        else bare props number p
      | .blockMappingStart =>
        if block then
          let (pairs, p) ← blockMapping rounds [] (p.declare props).skip
          return p.keep props number (.mapping props.line (props.explicitTag.getD "!!map") pairs)
        else bare props number p
      | _ => bare props number p

def blockSequence : (rounds : Nat) → (done : List Node) → Parser → Option (List Node × Parser)
  | 0, _, _ => none
  | rounds + 1, done, p => do
    let t ← p.peek?
    match t.kind with
    | .blockEntry =>
      let p := p.skip
      if ← p.nextIs [.blockEntry, .blockEnd] then
        blockSequence rounds (empty (t.line + 1) :: done) p
      else
        let (n, p) ← node rounds true false p
        blockSequence rounds (n :: done) p
    | .blockEnd => return (done.reverse, p.skip)
    | _ => none

def indentlessSequence :
    (rounds : Nat) → (done : List Node) → Parser → Option (List Node × Parser)
  | 0, _, _ => none
  | rounds + 1, done, p => do
    let t ← p.peek?
    match t.kind with
    | .blockEntry =>
      let p := p.skip
      if ← p.nextIs [.blockEntry, .key, .value, .blockEnd] then
        indentlessSequence rounds (empty (t.line + 1) :: done) p
      else
        let (n, p) ← node rounds true false p
        indentlessSequence rounds (n :: done) p
    | _ => return (done.reverse, p)

def blockMapping :
    (rounds : Nat) → (done : List (Node × Node)) → Parser → Option (List (Node × Node) × Parser)
  | 0, _, _ => none
  | rounds + 1, done, p => do
    let t ← p.peek?
    match t.kind with
    | .key =>
      let p := p.skip
      let (k, p) ←
        if ← p.nextIs [.key, .value, .blockEnd] then some (empty (t.line + 1), p)
        else node rounds true true p
      let (v, p) ← blockValue rounds p
      blockMapping rounds ((k, v) :: done) p
    | .blockEnd => return (done.reverse, p.skip)
    | _ => none

def blockValue : (rounds : Nat) → Parser → Option (Node × Parser)
  | 0, _ => none
  | rounds + 1, p => do
    let t ← p.peek?
    match t.kind with
    | .value =>
      let p := p.skip
      if ← p.nextIs [.key, .value, .blockEnd] then return (empty (t.line + 1), p)
      else node rounds true true p
    | _ => return (empty (t.line + 1), p)

def flowSequence :
    (rounds : Nat) → (first : Bool) → (done : List Node) → Parser → Option (List Node × Parser)
  | 0, _, _, _ => none
  | rounds + 1, first, done, p => do
    let t ← p.peek?
    if t.kind == .flowSequenceEnd then return (done.reverse, p.skip)
    else
      let p ← if first then some p else if t.kind == .flowEntry then some p.skip else none
      let t ← p.peek?
      match t.kind with
      | .flowSequenceEnd => return (done.reverse, p.skip)
      | .key =>
        let (n, p) ← flowPair rounds (t.line + 1) p.skip
        flowSequence rounds false (n :: done) p
      | _ =>
        let (n, p) ← node rounds false false p
        flowSequence rounds false (n :: done) p

/-- Reads a single pair that stands as an entry of a flow sequence. -/
def flowPair : (rounds line : Nat) → Parser → Option (Node × Parser)
  | 0, _, _ => none
  | rounds + 1, line, p => do
    let t ← p.peek?
    let (k, p) ←
      match t.kind with
      | .value | .flowEntry | .flowSequenceEnd => some (empty (t.line + 1), p.skip)
      | _ => node rounds false false p
    let (v, p) ← flowValue rounds .flowSequenceEnd p
    return (.mapping line "!!map" [(k, v)], p)

/-- Reads the value of a key in a flow collection that ends with `close`. -/
def flowValue : (rounds : Nat) → (close : TokenKind) → Parser → Option (Node × Parser)
  | 0, _, _ => none
  | rounds + 1, close, p => do
    let t ← p.peek?
    if t.kind == .value then
      let p := p.skip
      let t ← p.peek?
      if t.kind == .flowEntry || t.kind == close then return (empty (t.line + 1), p)
      else node rounds false false p
    else return (empty (t.line + 1), p)

def flowMapping :
    (rounds : Nat) → (first : Bool) → (done : List (Node × Node)) → Parser →
    Option (List (Node × Node) × Parser)
  | 0, _, _, _ => none
  | rounds + 1, first, done, p => do
    let t ← p.peek?
    if t.kind == .flowMappingEnd then return (done.reverse, p.skip)
    else
      let p ← if first then some p else if t.kind == .flowEntry then some p.skip else none
      let t ← p.peek?
      match t.kind with
      | .flowMappingEnd => return (done.reverse, p.skip)
      | .key =>
        let p := p.skip
        let t ← p.peek?
        let (k, p) ←
          match t.kind with
          | .value | .flowEntry | .flowMappingEnd => some (empty (t.line + 1), p)
          | _ => node rounds false false p
        let (v, p) ← flowValue rounds .flowMappingEnd p
        flowMapping rounds false ((k, v) :: done) p
      | _ =>
        let (k, p) ← node rounds false false p
        let t ← p.peek?
        flowMapping rounds false ((k, empty (t.line + 1)) :: done) p

end

/-- Reads the directives before a document: at most one version, which is 1.1, and tag handles
that differ. -/
def directives : (rounds : Nat) → (versioned : Bool) → Parser → Option Parser
  | 0, _, _ => none
  | rounds + 1, versioned, p => do
    let t ← p.peek?
    match t.kind with
    | .versionDirective major minor =>
      if versioned || major ≠ 1 || minor ≠ 1 then none else directives rounds true p.skip
    | .tagDirective handle uri =>
      if (p.handles.lookup handle).isSome then none
      else directives rounds versioned { p.skip with handles := p.handles ++ [(handle, uri)] }
    | _ => some p

/-- The handles that every document has unless it declares them itself. -/
def addDefaults (p : Parser) : Parser :=
  { p with handles := p.handles ++ [(['!'], ['!']), (['!', '!'], "tag:yaml.org,2002:".toList)] }

/-- Reads the first document of a stream, if it has one. -/
def document (p : Parser) : Option (Option Document) := do
  let rounds := 4 * p.tokens.length + 4
  let _ ← p.peek?
  let p := p.skip
  let t ← p.peek?
  let explicit := match t.kind with
    | .versionDirective .. | .tagDirective .. | .documentStart => true
    | _ => false
  if t.kind == .streamEnd then return none
  else
    let (root, p) ←
      if explicit then do
        let p ← directives rounds false p
        let t ← p.peek?
        if t.kind ≠ .documentStart then none
        else
          let p := p.addDefaults.skip
          let t ← p.peek?
          match t.kind with
          | .versionDirective .. | .tagDirective .. | .documentStart | .documentEnd
          | .streamEnd => some (empty (t.line + 1), p)
          | _ => node rounds true false p
      else node rounds true false p.addDefaults
    let _ ← p.peek?
    return some { root := root, anchored := p.anchored }

end Parser

/-- The first document of a text: no value if it is no YAML, nothing if it holds no document. -/
def document? (t : Text) : Option (Option Document) := do
  let cs ← chars? t
  Parser.document { tokens := tokens cs }

end SheetFormula.Yaml
