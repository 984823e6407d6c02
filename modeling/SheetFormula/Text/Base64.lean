import SheetFormula.Text

/-!
# Base 64

Bytes written with 64 digits, four digits for three bytes. Line breaks are ignored, and equals signs
fill up the last group.
-/

namespace SheetFormula.Base64

def digit? (b : UInt8) : Option Nat :=
  if 'A' ≤ b && b ≤ 'Z' then some (b.toNat - 65)
  else if 'a' ≤ b && b ≤ 'z' then some (b.toNat - 71)
  else if Text.isDigit b then some (b.toNat + 4)
  else if b = '+' then some 62
  else if b = '/' then some 63
  else none

/-- The first `count` of the three bytes of a number of 24 bits. -/
def bytes (count n : Nat) : Text :=
  [(n / 65536).toUInt8, (n / 256).toUInt8, n.toUInt8].take count

/-- The bytes of complete groups. -/
def groups? : Text → Option Text
  | [] => some []
  | a :: b :: c :: d :: rest => do
    let x ← digit? a
    let y ← digit? b
    if c = '=' && d = '=' && rest.isEmpty then return bytes 1 (x * 262144 + y * 4096)
    let z ← digit? c
    if d = '=' && rest.isEmpty then return bytes 2 (x * 262144 + y * 4096 + z * 64)
    let w ← digit? d
    return bytes 3 (x * 262144 + y * 4096 + z * 64 + w) ++ (← groups? rest)
  | _ => none

def decode? (t : Text) : Option Text := groups? (t.filter fun b : UInt8 => b != '\n' && b != '\r')

end SheetFormula.Base64
