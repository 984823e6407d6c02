import SheetFormula.Text.Symbol

/-!
# Characters of a YAML stream

A stream is UTF-8, or UTF-16 when it starts with the byte order mark of one. Control characters are
not allowed in it. A cursor walks over the characters and knows its line and column.
-/

namespace SheetFormula.Yaml

/-- Characters that may stand in a stream. -/
def isAllowed (c : Char) : Bool :=
  let n := c.toNat
  n == 0x09 || n == 0x0A || n == 0x0D || (0x20 ≤ n && n ≤ 0x7E) || n == 0x85
    || (0xA0 ≤ n && n ≤ 0xD7FF) || (0xE000 ≤ n && n ≤ 0xFFFD) || 0x10000 ≤ n

/-- The code units of a UTF-16 text; `big` puts the high byte first. -/
def units? (big : Bool) : Text → Option (List Nat)
  | [] => some []
  | [_] => none
  | a :: b :: rest =>
    (units? big rest).map fun us =>
      (if big then a.toNat * 256 + b.toNat else b.toNat * 256 + a.toNat) :: us

/-- The characters of code units; surrogates come in pairs. -/
def ofUnits? : List Nat → Option (List Char)
  | [] => some []
  | n :: rest =>
    if n < 0xD800 || 0xDFFF < n then (ofUnits? rest).map (Char.ofNat n :: ·)
    else
      match rest with
      | m :: rest =>
        if n < 0xDC00 && 0xDC00 ≤ m && m ≤ 0xDFFF then
          (ofUnits? rest).map (Char.ofNat ((n - 0xD800) * 1024 + (m - 0xDC00) + 0x10000) :: ·)
        else none
      | [] => none

def ofUtf8? (t : Text) : Option (List Char) :=
  t.symbols.mapM fun
    | .char c => some c
    | .stray _ => none

/-- The characters of a stream, all of them allowed. -/
def chars? (t : Text) : Option (List Char) := do
  let cs ←
    match t with
    | 0xFF :: 0xFE :: rest => (units? false rest).bind ofUnits?
    | 0xFE :: 0xFF :: rest => (units? true rest).bind ofUnits?
    | 0xEF :: 0xBB :: 0xBF :: rest => ofUtf8? rest
    | _ => ofUtf8? t
  if cs.all isAllowed then some cs else none

def ofChars (cs : List Char) : Text := cs.flatMap String.utf8EncodeChar

/-- A space or a tab. -/
def isBlank (c : Char) : Bool := c == ' ' || c == '\t'

/-- A character that ends a line. -/
def isBreak (c : Char) : Bool :=
  c == '\n' || c == '\r' || c.toNat == 0x85 || c.toNat == 0x2028 || c.toNat == 0x2029

def isBlankOrBreak (c : Char) : Bool := isBlank c || isBreak c

/-- A letter of an anchor, a tag handle or a directive. -/
def isWordChar (c : Char) : Bool := c.isAlphanum || c == '_' || c == '-'

/-- A place in a stream with what follows it. -/
structure Cursor where
  rest : List Char
  line : Nat := 0
  column : Nat := 0
  index : Nat := 0
  /-- Whether only blanks stand between the last line break and this place. -/
  fresh : Bool := false
deriving DecidableEq, Repr

namespace Cursor

/-- The character at a place, if the stream has not ended. -/
def peek? (c : Cursor) : Option Char := c.rest.head?

def peekAt? (c : Cursor) (n : Nat) : Option Char := c.rest[n]?

def atChar (c : Cursor) (ch : Char) : Bool := c.peek? == some ch

/-- Whether a class of characters holds `n` places on. -/
def sees (c : Cursor) (n : Nat) (p : Char → Bool) : Bool := (c.peekAt? n).any p

/-- Whether a blank, a line break or the end of the stream is `n` places on. -/
def blankOrEndAt (c : Cursor) (n : Nat) : Bool := (c.peekAt? n).all isBlankOrBreak

/-- Whether a line break or the end of the stream is at a place. -/
def lineEnds (c : Cursor) : Bool := c.peek?.all isBreak

/-- The place after one character that is no line break. -/
def skip (c : Cursor) : Cursor :=
  match c.rest with
  | [] => c
  | ch :: rest =>
    { c with rest := rest, column := c.column + 1, index := c.index + 1
             fresh := c.fresh && isBlank ch }

/-- The place after `n` characters that are no line breaks. -/
def skipN (c : Cursor) (n : Nat) : Cursor := n.repeat skip c

/-- The place at the start of the next line, and the line break as it counts in a scalar. -/
def readBreak (c : Cursor) : List Char × Cursor :=
  match c.rest with
  | '\r' :: '\n' :: rest => (['\n'], ⟨rest, c.line + 1, 0, c.index + 2, true⟩)
  | ch :: rest =>
    if isBreak ch then
      (if ch.toNat < 0x100 then ['\n'] else [ch], ⟨rest, c.line + 1, 0, c.index + 1, true⟩)
    else ([], c)
  | [] => ([], c)

/-- The place at the start of the next line. -/
def skipBreak (c : Cursor) : Cursor := c.readBreak.2

/-- Skips characters of a class that holds no line breaks. -/
def skipWhile (p : Char → Bool) (c : Cursor) : Cursor := c.skipN (c.rest.takeWhile p).length

/-- The characters of a class that holds no line breaks, and the place after them. -/
def readWhile (p : Char → Bool) (c : Cursor) : List Char × Cursor :=
  (c.rest.takeWhile p, c.skipWhile p)

/-- Whether a line of three equal marks, followed by a blank or an end, starts at a place. -/
def documentMark (c : Cursor) (ch : Char) : Bool :=
  c.column == 0 && c.rest.take 3 == [ch, ch, ch] && c.blankOrEndAt 3

/-- Whether a line that starts or ends a document is at a place. -/
def documentIndicator (c : Cursor) : Bool := c.documentMark '-' || c.documentMark '.'

end Cursor

end SheetFormula.Yaml
