/-!
# Texts

A text is a list of bytes. Formulas, paths and messages pass through the program byte for byte, so
nothing here assumes that a text is well-formed UTF-8. String literals stand for their UTF-8 bytes.
-/

namespace SheetFormula

/-- A byte string, usually but not always UTF-8. -/
abbrev Text := List UInt8

/-- A character literal below 128 stands for its byte. -/
instance byteOfChar : Coe Char UInt8 := ⟨Char.toUInt8⟩

namespace Text

/-- The UTF-8 bytes of a string. -/
def ofString (s : String) : Text := s.toList.flatMap String.utf8EncodeChar

instance : Coe String Text := ⟨ofString⟩

/-- Decimal digits of a natural number, without leading zeros. -/
def ofNat (n : Nat) : Text := (Nat.toDigits 10 n).map Char.toUInt8

/-- Decimal digits of an integer, with a minus sign when it is negative. -/
def ofInt (n : Int) : Text :=
  if n < 0 then '-' :: ofNat n.natAbs else ofNat n.natAbs

def startsWith (part t : Text) : Bool := part.isPrefixOf t

def endsWith (part t : Text) : Bool := part.isSuffixOf t

/-- What follows `part` at the start of `t`. -/
def dropStart? : (part t : Text) → Option Text
  | [], t => some t
  | _ :: _, [] => none
  | a :: part, b :: t => if a = b then dropStart? part t else none

/-- What precedes and what follows the first occurrence of `part`. -/
def splitAt? (part : Text) : Text → Option (Text × Text)
  | [] => if part.isEmpty then some ([], []) else none
  | a :: t =>
    match dropStart? part (a :: t) with
    | some rest => some ([], rest)
    | none => (splitAt? part t).map fun (before, rest) => (a :: before, rest)

def contains (part t : Text) : Bool := (splitAt? part t).isSome

/-- The pieces of a text between the bytes equal to `sep`; always at least one. -/
def splitOn (sep : UInt8) : Text → List Text
  | [] => [[]]
  | a :: t =>
    if a = sep then [] :: splitOn sep t
    else
      match splitOn sep t with
      | [] => [[a]]
      | piece :: rest => (a :: piece) :: rest

/-- The texts one after the other, with `sep` between neighbours. -/
def join (sep : Text) (parts : List Text) : Text := List.intercalate sep parts

/-- A text that is there only under a condition. -/
def when (c : Bool) (t : Text) : Text := if c then t else []

/-- The texts one after the other, each with `lead` before it. -/
def eachAfter (lead : Text) (parts : List Text) : Text := parts.flatMap (lead ++ ·)

/-- The texts one after the other, each with `trail` behind it. -/
def eachBefore (trail : Text) (parts : List Text) : Text := parts.flatMap (· ++ trail)

/-- Bytewise order. -/
def le (a b : Text) : Bool := decide (a ≤ b)

/-- The texts in ascending byte order; equal texts keep their order. -/
def sort (ts : List Text) : List Text := ts.mergeSort le

def isDigit (b : UInt8) : Bool := '0' ≤ b && b ≤ '9'

def digitsValue (t : Text) : Nat := t.foldl (fun n b => 10 * n + (b.toNat - 48)) 0

/-- Lower-case hexadecimal digit of a number below 16. -/
def hexDigit (n : Nat) : UInt8 := (Nat.digitChar n).toUInt8

/-- The last `width` hexadecimal digits of a number. -/
def hex : (width n : Nat) → Text
  | 0, _ => []
  | width + 1, n => hex width (n / 16) ++ [hexDigit (n % 16)]

/-- The value of a hexadecimal digit of either case. -/
def hexValue? (b : UInt8) : Option Nat :=
  if isDigit b then some (b.toNat - 48)
  else if 'a' ≤ b && b ≤ 'f' then some (b.toNat - 87)
  else if 'A' ≤ b && b ≤ 'F' then some (b.toNat - 55)
  else none

end Text

end SheetFormula
