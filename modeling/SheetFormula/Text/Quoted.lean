import SheetFormula.Text.Printable

/-!
# Quoted texts

A text inside a message stands between double quotes, on one line and with only printable
characters: the rest is written as escapes, stray bytes by their value.
-/

namespace SheetFormula

/-- The single letter that names a control character in an escape. -/
def controlLetter? (c : Char) : Option Char :=
  match c.toNat with
  | 7 => some 'a'
  | 8 => some 'b'
  | 12 => some 'f'
  | 10 => some 'n'
  | 13 => some 'r'
  | 9 => some 't'
  | 11 => some 'v'
  | _ => none

/-- A symbol between double quotes, where characters that `shown` admits stand for themselves. -/
def Symbol.quotedBy (shown : Char → Bool) : Symbol → Text
  | .stray b => "\\x" ++ Text.hex 2 b.toNat
  | .char c =>
    if c == '"' || c == '\\' then ['\\', c.toUInt8]
    else if shown c then String.utf8EncodeChar c
    else
      match controlLetter? c with
      | some letter => ['\\', letter.toUInt8]
      | none =>
        if c.toNat < 0x20 || c.toNat = 0x7F then "\\x" ++ Text.hex 2 c.toNat
        else if c.toNat < 0x10000 then "\\u" ++ Text.hex 4 c.toNat
        else "\\U" ++ Text.hex 8 c.toNat

namespace Text

/-- A text between double quotes, where characters that `shown` admits stand for themselves. -/
def quotedBy (shown : Char → Bool) (t : Text) : Text :=
  "\"" ++ t.symbols.flatMap (Symbol.quotedBy shown) ++ "\""

def quoted (t : Text) : Text := t.quotedBy isPrintable

/-- A text between double quotes, with escapes for all characters beyond ASCII. -/
def quotedAscii (t : Text) : Text := t.quotedBy fun c => c.toNat < 0x80 && isPrintable c

end Text

end SheetFormula
