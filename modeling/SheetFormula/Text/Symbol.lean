import SheetFormula.Text

/-!
# Characters of a text

A text splits into symbols from left to right: well-formed UTF-8 sequences, and stray bytes that
belong to none. Putting the symbols' bytes together again gives back the text.
-/

namespace SheetFormula

/-- A character of a text, or a byte that is part of no character. -/
inductive Symbol where
  | char (c : Char)
  | stray (b : UInt8)
deriving DecidableEq, Repr

namespace Symbol

def bytes : Symbol → Text
  | .char c => String.utf8EncodeChar c
  | .stray b => [b]

/-- The character of a symbol, with the replacement character for a stray byte. -/
def toChar : Symbol → Char
  | .char c => c
  | .stray _ => '�'

/-- A continuation byte. -/
def isTail (b : UInt8) : Bool := 0x80 ≤ b && b ≤ 0xBF

/-- The character of a two-byte sequence. -/
def two? (a b : UInt8) : Option Char :=
  if 0xC2 ≤ a && a ≤ 0xDF && isTail b then
    some (Char.ofNat ((a.toNat - 0xC0) * 64 + (b.toNat - 0x80)))
  else none

/-- The character of a three-byte sequence: neither overlong nor a surrogate. -/
def three? (a b c : UInt8) : Option Char :=
  if 0xE0 ≤ a && a ≤ 0xEF && isTail b && isTail c
      && (a != 0xE0 || 0xA0 ≤ b) && (a != 0xED || b ≤ 0x9F) then
    some (Char.ofNat ((a.toNat - 0xE0) * 4096 + (b.toNat - 0x80) * 64 + (c.toNat - 0x80)))
  else none

/-- The character of a four-byte sequence: neither overlong nor above the last code point. -/
def four? (a b c d : UInt8) : Option Char :=
  if 0xF0 ≤ a && a ≤ 0xF4 && isTail b && isTail c && isTail d
      && (a != 0xF0 || 0x90 ≤ b) && (a != 0xF4 || b ≤ 0x8F) then
    some (Char.ofNat ((a.toNat - 0xF0) * 262144 + (b.toNat - 0x80) * 4096
      + (c.toNat - 0x80) * 64 + (d.toNat - 0x80)))
  else none

end Symbol

namespace Text

/-- The character at the start of a text and the number of bytes after the first that it takes. -/
def firstChar? : Text → Option (Char × Nat)
  | [] => none
  | a :: rest =>
    if a < 0x80 then some (Char.ofNat a.toNat, 0)
    else
      match rest with
      | b :: c :: d :: _ =>
        ((Symbol.two? a b).map (·, 1)) <|> ((Symbol.three? a b c).map (·, 2))
          <|> ((Symbol.four? a b c d).map (·, 3))
      | [b, c] => ((Symbol.two? a b).map (·, 1)) <|> ((Symbol.three? a b c).map (·, 2))
      | [b] => (Symbol.two? a b).map (·, 1)
      | [] => none

/-- The symbols of a text after its first `skip` bytes. -/
def symbolsFrom : (skip : Nat) → Text → List Symbol
  | _, [] => []
  | skip + 1, _ :: rest => symbolsFrom skip rest
  | 0, a :: rest =>
    match firstChar? (a :: rest) with
    | some (c, more) => .char c :: symbolsFrom more rest
    | none => .stray a :: symbolsFrom 0 rest

def symbols (t : Text) : List Symbol := symbolsFrom 0 t

/-- The text that a list of symbols spells. -/
def ofSymbols (rs : List Symbol) : Text := rs.flatMap Symbol.bytes

/-- Whether every byte of a text belongs to a character. -/
def isUtf8 (t : Text) : Bool :=
  t.symbols.all fun
    | .char _ => true
    | .stray _ => false

def toString? (t : Text) : Option String :=
  if t.isUtf8 then some (String.ofList (t.symbols.map Symbol.toChar)) else none

end Text

end SheetFormula
