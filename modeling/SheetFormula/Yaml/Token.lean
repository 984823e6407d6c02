import SheetFormula.Yaml.Scalar

/-!
# Tokens of a YAML stream

Tokens are read one round at a time. A token that could be a key without an indicator is
remembered until its colon comes; the key token is then put in front of it. Reading stops at the end
of the stream or at a fault, which stands as the last token.
-/

namespace SheetFormula.Yaml

/-- What a token says. -/
inductive TokenKind where
  | streamStart
  | streamEnd
  | versionDirective (major minor : Nat)
  | tagDirective (handle uri : List Char)
  | documentStart
  | documentEnd
  | blockSequenceStart
  | blockMappingStart
  | blockEnd
  | flowSequenceStart
  | flowSequenceEnd
  | flowMappingStart
  | flowMappingEnd
  | blockEntry
  | flowEntry
  | key
  | value
  | aliasOf (name : List Char)
  | anchor (name : List Char)
  | tag (handle suffix : List Char)
  | scalar (isPlain : Bool) (value : List Char)
  /-- The stream cannot be read any further. -/
  | fault
deriving DecidableEq, Repr

/-- A token and where it starts. -/
structure Token where
  kind : TokenKind
  line : Nat
  column : Nat
deriving DecidableEq, Repr

/-- A token that becomes a key if a colon follows it on its line. -/
structure SimpleKey where
  /-- Whether the block cannot go on without the colon. -/
  required : Bool
  /-- The number of tokens before it. -/
  number : Nat
  line : Nat
  column : Nat
  index : Nat
deriving DecidableEq, Repr

/-- How far the tokens of a stream have been read. -/
structure Scanner where
  cursor : Cursor
  /-- The tokens so far, in reverse. -/
  tokens : List Token := []
  /-- The indentation of the innermost block, −1 outside of all. -/
  indent : Int := -1
  indents : List Int := []
  /-- The possible keys of the block level and of each open flow collection, innermost first. -/
  keys : List (Option SimpleKey) := [none]
  keyAllowed : Bool := true
deriving DecidableEq, Repr

namespace Scanner

/-- How many flow collections are open. -/
def flowLevel (s : Scanner) : Nat := s.keys.length - 1

def inFlow (s : Scanner) : Bool := 0 < s.flowLevel

def token (s : Scanner) (kind : TokenKind) : Token := ⟨kind, s.cursor.line, s.cursor.column⟩

def push (s : Scanner) (t : Token) : Scanner := { s with tokens := t :: s.tokens }

/-- Adds a token before all but the first `number` tokens. -/
def insert (s : Scanner) (number : Nat) (t : Token) : Scanner :=
  { s with tokens := s.tokens.insertIdx (s.tokens.length - number) t }

/-- Adds a token of some characters at the cursor and moves behind them. -/
def take (s : Scanner) (kind : TokenKind) (n : Nat) : Scanner :=
  { s.push (s.token kind) with cursor := s.cursor.skipN n }

/-- Whether a possible key can still be one at the cursor. -/
def inReach (s : Scanner) (k : SimpleKey) : Bool :=
  !(k.line < s.cursor.line || k.index + 1024 < s.cursor.index)

/-- Forgets the possible key of the current level; a required one may not be forgotten. -/
def dropKey (s : Scanner) : Option Scanner :=
  match s.keys with
  | some k :: outer => if k.required then none else some { s with keys := none :: outer }
  | _ => some s

/-- Remembers that the next token may be a key. -/
def saveKey (s : Scanner) : Option Scanner :=
  if s.keyAllowed then do
    let required := !s.inFlow && s.indent == (s.cursor.column : Int)
    let s ← s.dropKey
    let key : SimpleKey :=
      ⟨required, s.tokens.length, s.cursor.line, s.cursor.column, s.cursor.index⟩
    return { s with keys := some key :: s.keys.drop 1 }
  else some s

/-- Opens a block at a column unless one is open there, with `t` before all but the first `number`
tokens. -/
def rollIndent (s : Scanner) (column : Nat) (number : Nat) (t : Token) : Option Scanner :=
  if !s.inFlow && s.indent < (column : Int) then
    if 10000 ≤ s.indents.length then none
    else some { s.insert number t with indent := column, indents := s.indent :: s.indents }
  else some s

/-- Closes the blocks whose indentation is deeper than a column. -/
def unrollFrom (column : Int) : List Int → Scanner → Scanner
  | [], s => s
  | outer :: rest, s =>
    if column < s.indent then
      unrollFrom column rest { s.push (s.token .blockEnd) with indent := outer, indents := rest }
    else s

def unrollIndent (s : Scanner) (column : Int) : Scanner :=
  if s.inFlow then s else unrollFrom column s.indents s

/-! ### Blanks and comments -/

/-- The place at the end of a comment. -/
def skipComment (c : Cursor) : Cursor := c.skipWhile fun ch => !isBreak ch

/-- The place where the next comment starts, if only blanks and line breaks are before it. -/
def nextComment? : (rounds : Nat) → Cursor → Option Cursor
  | 0, _ => none
  | rounds + 1, c =>
    match c.peek? with
    | none => none
    | some ch =>
      if isBlank ch then nextComment? rounds c.skip
      else if isBreak ch then nextComment? rounds c.skipBreak
      else if ch == '#' then some c
      else none

/-- The place at the end of a comment and of the comments that follow it. -/
def skipComments : (rounds : Nat) → Cursor → Cursor
  | 0, c => c
  | rounds + 1, c =>
    let c := skipComment c
    match nextComment? c.rest.length c with
    | some next => skipComments rounds next
    | none => c

/-- Moves to the next token. A new line in a block may start a key. -/
def toToken : (rounds : Nat) → Scanner → Scanner
  | 0, s => s
  | rounds + 1, s =>
    let c := s.cursor
    let c := if c.column == 0 && c.sees 0 (·.toNat == 0xFEFF) then c.skip else c
    let c := c.skipWhile fun ch => ch == ' ' || ((s.inFlow || !s.keyAllowed) && ch == '\t')
    let c := if c.atChar '#' then skipComments c.rest.length c else c
    if c.sees 0 isBreak then
      toToken rounds { s with cursor := c.skipBreak, keyAllowed := s.keyAllowed || !s.inFlow }
    else { s with cursor := c }

/-- Skips a comment on the line of the token before. -/
def lineComment (s : Scanner) : Scanner :=
  if s.cursor.fresh then s
  else
    let c := s.cursor.skipWhile isBlank
    if c.atChar '#' then { s with cursor := skipComment c } else s

/-! ### Directives, anchors and tags -/

/-- Reads a number of a version: one or two digits. -/
def versionNumber? (c : Cursor) : Option (Nat × Cursor) :=
  let (digits, c) := c.readWhile Char.isDigit
  if digits.isEmpty || 2 < digits.length then none
  else some (Text.digitsValue (ofChars digits), c)

/-- Characters of a tag beside escapes. -/
def isUriChar (c : Char) : Bool :=
  isWordChar c || [';', '/', '?', ':', '@', '&', '=', '+', '$', ',', '.', '!', '~', '*', '\'', '(',
    ')', '[', ']'].contains c

/-- Reads an escaped byte. -/
def uriByte? (cs : List Char) : Option UInt8 :=
  match cs with
  | '%' :: a :: b :: _ => (hexValue? [a, b]).map Nat.toUInt8
  | _ => none

/-- The number of bytes in the UTF-8 sequence that a byte starts. -/
def sequenceLength? (b : UInt8) : Option Nat :=
  if b < 0x80 then some 1
  else if b &&& 0xE0 = 0xC0 then some 2
  else if b &&& 0xF0 = 0xE0 then some 3
  else if b &&& 0xF8 = 0xF0 then some 4
  else none

/-- Reads `n` escaped bytes that continue a UTF-8 sequence. -/
def uriTail? : (n : Nat) → Cursor → Option (Text × Cursor)
  | 0, c => some ([], c)
  | n + 1, c => do
    let b ← uriByte? c.rest
    if b &&& 0xC0 ≠ 0x80 then none
    else
      let (bs, c) ← uriTail? n (c.skipN 3)
      return (b :: bs, c)

/-- Reads the rest of a tag; escaped bytes spell whole characters. -/
def uriFrom : (rounds : Nat) → (done : List Char) → Cursor → Option (List Char × Cursor)
  | 0, done, c => some (done, c)
  | rounds + 1, done, c =>
    match c.peek? with
    | none => some (done, c)
    | some ch =>
      if ch == '%' then do
        let b ← uriByte? c.rest
        let n ← sequenceLength? b
        let (bs, c) ← uriTail? (n - 1) (c.skipN 3)
        uriFrom rounds (done ++ (Text.symbols (b :: bs)).map Symbol.toChar) c
      else if isUriChar ch then uriFrom rounds (done ++ [ch]) c.skip
      else some (done, c)

/-- Reads the rest of a tag that starts with `head`; it may not be empty. -/
def uri? (head : List Char) (c : Cursor) : Option (List Char × Cursor) := do
  let (cs, next) ← uriFrom c.rest.length (head.drop 1) c
  if head.isEmpty && next.index == c.index then none else some (cs, next)

/-- Reads the handle of a tag; in a directive it ends with its mark. -/
def tagHandle? (directive : Bool) (c : Cursor) : Option (List Char × Cursor) :=
  if !c.atChar '!' then none
  else
    let (word, c) := c.skip.readWhile isWordChar
    if c.atChar '!' then some ('!' :: word ++ ['!'], c.skip)
    else if directive && !word.isEmpty then none
    else some ('!' :: word, c)

/-- Reads a directive up to the end of its line. -/
def directive (s : Scanner) : Option Scanner := do
  let (name, c) := s.cursor.skip.readWhile isWordChar
  if name.isEmpty || !c.blankOrEndAt 0 then none
  else
    let c := c.skipWhile isBlank
    let (kind, c) ←
      if name == "YAML".toList then do
        let (major, c) ← versionNumber? c
        if !c.atChar '.' then none
        else
          let (minor, c) ← versionNumber? c.skip
          some (TokenKind.versionDirective major minor, c)
      else if name == "TAG".toList then do
        let (handle, c) ← tagHandle? true c
        if !c.sees 0 isBlank then none
        else
          let (uri, c) ← uri? [] (c.skipWhile isBlank)
          if !c.blankOrEndAt 0 then none else some (TokenKind.tagDirective handle uri, c)
      else none
    let c := c.skipWhile isBlank
    let c := if c.atChar '#' then skipComment c else c
    if c.lineEnds then some { s.push (s.token kind) with cursor := c.skipBreak } else none

def anchor (s : Scanner) (kind : List Char → TokenKind) : Option Scanner :=
  let (name, c) := s.cursor.skip.readWhile isWordChar
  if name.isEmpty then none
  else if c.blankOrEndAt 0 || c.sees 0 ['?', ':', ',', ']', '\x7d', '%', '@', '\x60'].contains then
    some { s.push (s.token (kind name)) with cursor := c }
  else none

def tag (s : Scanner) : Option Scanner := do
  let c := s.cursor
  let (handle, suffix, c) ←
    if c.peekAt? 1 == some '<' then do
      let (uri, c) ← uri? [] (c.skipN 2)
      if c.atChar '>' then some ([], uri, c.skip) else none
    else do
      let (handle, c) ← tagHandle? false c
      if 1 < handle.length && handle.getLast? == some '!' then
        let (uri, c) ← uri? [] c
        some (handle, uri, c)
      else
        let (uri, c) ← uri? handle c
        some (if uri.isEmpty then ([], ['!'], c) else (['!'], uri, c))
  if c.blankOrEndAt 0 then some { s.push (s.token (.tag handle suffix)) with cursor := c } else none

/-! ### One round -/

def openFlow (s : Scanner) (kind : TokenKind) : Option Scanner := do
  let s ← s.saveKey
  if 10000 ≤ s.flowLevel then none
  else some { s.take kind 1 with keys := none :: s.keys, keyAllowed := true }

def closeFlow (s : Scanner) (kind : TokenKind) : Option Scanner := do
  let s ← s.dropKey
  return { s.take kind 1 with
    keys := if s.inFlow then s.keys.drop 1 else s.keys, keyAllowed := false }

/-- Reads the comma between two parts of a flow collection. -/
def flowEntry (s : Scanner) : Option Scanner := do
  let s ← s.dropKey
  return { s.take .flowEntry 1 with keyAllowed := true }

/-- Opens a block at the cursor with an indicator that needs a place for a key. -/
def blockIndicator (s : Scanner) (start : TokenKind) : Option Scanner :=
  if s.inFlow then some s
  else if !s.keyAllowed then none
  else s.rollIndent s.cursor.column s.tokens.length (s.token start)

def blockEntry (s : Scanner) : Option Scanner := do
  let s ← s.blockIndicator .blockSequenceStart
  let s ← s.dropKey
  return { s.take .blockEntry 1 with keyAllowed := true }

def keyIndicator (s : Scanner) : Option Scanner := do
  let s ← s.blockIndicator .blockMappingStart
  let s ← s.dropKey
  return { s.take .key 1 with keyAllowed := !s.inFlow }

/-- Reads the colon before a value. If a possible key is in reach, it is one. -/
def valueIndicator (s : Scanner) : Option Scanner :=
  match s.keys with
  | some k :: outer =>
    if s.inReach k then do
      let s := s.insert k.number ⟨.key, k.line, k.column⟩
      let s ← s.rollIndent k.column k.number ⟨.blockMappingStart, k.line, k.column⟩
      return { s.take .value 1 with keys := none :: outer, keyAllowed := false }
    else if k.required then none
    else complexValue { s with keys := none :: outer }
  | _ => complexValue s
where
  complexValue (s : Scanner) : Option Scanner := do
    let s ← s.blockIndicator .blockMappingStart
    return { s.take .value 1 with keyAllowed := !s.inFlow }

def quotedScalar (s : Scanner) (single : Bool) : Option Scanner := do
  let s ← s.saveKey
  let (value, c) ← quoted? single s.cursor
  return { s.push (s.token (.scalar false value)) with cursor := c, keyAllowed := false }

def plainScalar (s : Scanner) : Option Scanner := do
  let s ← s.saveKey
  let (value, lineEnded, c) ← plain? s.inFlow (s.indent + 1).toNat s.cursor
  return { s.push (s.token (.scalar true value)) with cursor := c, keyAllowed := lineEnded }

def blockScalar (s : Scanner) (literal : Bool) : Option Scanner := do
  let s ← s.dropKey
  let (value, c) ← block? literal s.indent s.cursor
  return { s.push (s.token (.scalar false value)) with cursor := c, keyAllowed := true }

/-- Leaves all blocks, at the end of a document. -/
def leaveBlocks (s : Scanner) : Option Scanner := do
  let s ← (s.unrollIndent (-1)).dropKey
  return { s with keyAllowed := false }

/-- Characters that a plain scalar cannot start with. -/
def isIndicator (c : Char) : Bool :=
  ['-', '?', ':', ',', '[', ']', '\x7b', '\x7d', '#', '&', '*', '!', '|', '>', '\'', '"', '%', '@',
    '\x60'].contains c

/-- Whether a plain scalar starts at the cursor. -/
def startsPlain (s : Scanner) (ch : Char) : Bool :=
  let c := s.cursor
  !(isBlankOrBreak ch || isIndicator ch)
    || (ch == '-' && !c.sees 1 isBlank)
    || (!s.inFlow && (ch == '?' || ch == ':') && !c.blankOrEndAt 1)

/-- Reads the token that starts with a character, comments apart. -/
def content (s : Scanner) (ch : Char) : Option Scanner :=
  let c := s.cursor
  if ch == '[' then s.openFlow .flowSequenceStart
  else if ch == '\x7b' then s.openFlow .flowMappingStart
  else if ch == ']' then s.closeFlow .flowSequenceEnd
  else if ch == '\x7d' then s.closeFlow .flowMappingEnd
  else if ch == ',' then s.flowEntry
  else if ch == '-' && c.blankOrEndAt 1 then s.blockEntry
  else if ch == '?' && (s.inFlow || c.blankOrEndAt 1) then s.keyIndicator
  else if ch == ':' && (s.inFlow || c.blankOrEndAt 1) then s.valueIndicator
  else if ch == '*' then do
    let s ← s.saveKey
    { s with keyAllowed := false }.anchor .aliasOf
  else if ch == '&' then do
    let s ← s.saveKey
    { s with keyAllowed := false }.anchor .anchor
  else if ch == '!' then do
    let s ← s.saveKey
    { s with keyAllowed := false }.tag
  else if ch == '|' && !s.inFlow then s.blockScalar true
  else if ch == '>' && !s.inFlow then s.blockScalar false
  else if ch == '\'' then s.quotedScalar true
  else if ch == '"' then s.quotedScalar false
  else if s.startsPlain ch then s.plainScalar
  else none

/-- Whether the last token is the indicator of a sequence entry. -/
def afterEntry (s : Scanner) : Bool :=
  match s.tokens with
  | t :: _ => t.kind == .blockEntry
  | [] => false

/-- Reads the next token with the tokens that it implies. -/
def round (s : Scanner) : Option Scanner :=
  let s := toToken (s.cursor.rest.length + 1) s
  let s := s.unrollIndent s.cursor.column
  let c := s.cursor
  match c.peek? with
  | none => do
    let c := if c.column == 0 then c else { c with column := 0, line := c.line + 1 }
    let s ← { s with cursor := c }.leaveBlocks
    return s.push (s.token .streamEnd)
  | some ch =>
    if c.column == 0 && ch == '%' then s.leaveBlocks.bind directive
    else if c.documentMark '-' then s.leaveBlocks.map (·.take .documentStart 3)
    else if c.documentMark '.' then s.leaveBlocks.map (·.take .documentEnd 3)
    else do
      let s ← s.content ch
      return if s.afterEntry then s else s.lineComment

/-- The tokens before a fault: reading goes on while the token in front may still be a key, so such
a token is never handed out. -/
def faulty (s : Scanner) : List Token :=
  let tokens := s.tokens.reverse
  let pending := s.keys.filterMap fun k => k.bind fun k =>
    if s.inReach k then some k.number else none
  let cut := pending.foldl min tokens.length
  tokens.take (cut + 2) ++ [s.token .fault]

/-- Reads tokens until the stream ends or cannot be read. -/
def run : (rounds : Nat) → Scanner → List Token
  | 0, s => s.faulty
  | rounds + 1, s =>
    match s.round with
    | none => s.faulty
    | some next =>
      match next.tokens with
      | t :: _ => if t.kind == .streamEnd then next.tokens.reverse else run rounds next
      | [] => run rounds next

end Scanner

def tokens (cs : List Char) : List Token :=
  Scanner.run (cs.length + 1)
    { cursor := { rest := cs }, tokens := [⟨.streamStart, 0, 0⟩] }

end SheetFormula.Yaml
