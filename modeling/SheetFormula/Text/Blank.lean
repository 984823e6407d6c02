import SheetFormula.Text.Symbol

/-!
# Blanks and letter case

White space is that of Unicode: the ASCII blanks, next line, no-break space and the separators.
Words of the program are compared without regard to letter case; they are ASCII, so only letters
with an ASCII lower case matter, and those include two that are not ASCII themselves.
-/

namespace SheetFormula

/-- Unicode white space. -/
def Symbol.isBlank : Symbol → Bool
  | .stray _ => false
  | .char c =>
    let n := c.toNat
    (9 ≤ n && n ≤ 13) || n == 0x20 || n == 0x85 || n == 0xA0 || n == 0x1680
      || (0x2000 ≤ n && n ≤ 0x200A) || n == 0x2028 || n == 0x2029 || n == 0x202F || n == 0x205F
      || n == 0x3000

/-- The ASCII lower case of a symbol that has one; any other symbol stays. The Kelvin sign and the
dotted capital I have ASCII lower cases. -/
def Symbol.lower : Symbol → Symbol
  | .stray b => .stray b
  | .char c =>
    if 'A' ≤ c && c ≤ 'Z' then .char (Char.ofNat (c.toNat + 32))
    else if c == 'K' then .char 'k'
    else if c == 'İ' then .char 'i'
    else .char c

namespace Text

/-- A text without its first `skip` bytes and the white space that follows them. -/
def trimStartFrom : (skip : Nat) → Text → Text
  | _, [] => []
  | skip + 1, _ :: rest => trimStartFrom skip rest
  | 0, a :: rest =>
    match firstChar? (a :: rest) with
    | some (c, more) => if Symbol.isBlank (.char c) then trimStartFrom more rest else a :: rest
    | none => a :: rest

def trimStart (t : Text) : Text := trimStartFrom 0 t

def trim (t : Text) : Text :=
  ofSymbols ((t.symbols.dropWhile Symbol.isBlank).reverse.dropWhile Symbol.isBlank).reverse

/-- A text with every letter that has an ASCII lower case in that case. -/
def lower (t : Text) : Text := ofSymbols (t.symbols.map Symbol.lower)

/-- The word that a text spells, blanks around it and letter case aside. -/
def word (t : Text) : Text := t.trim.lower

end Text

end SheetFormula
