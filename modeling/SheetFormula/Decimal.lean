import SheetFormula.Text

/-!
# Decimal numbers

Decimal spellings as exact numbers, and their nearest numbers in double precision.
-/

namespace SheetFormula

/-- A decimal number: digits, as a natural number, times a power of ten. -/
structure Decimal where
  digits : Nat
  exponent : Int
deriving DecidableEq, Repr

namespace Decimal

/-- Drops one leading sign. -/
def unsigned : Text → Text
  | b :: rest => if b = '+' || b = '-' then rest else b :: rest
  | [] => []

def exponent? (t : Text) : Option Int :=
  let ds := unsigned t
  if ds.isEmpty || !ds.all Text.isDigit then none
  else
    match t with
    | b :: _ => if b = '-' then some (-(Text.digitsValue ds : Int)) else some (Text.digitsValue ds)
    | [] => none

/-- Reads an optional sign, digits with at most one point among them, and an optional exponent. -/
def parse? (t : Text) : Option Decimal :=
  let body := unsigned t
  let whole := body.takeWhile Text.isDigit
  let rest := body.dropWhile Text.isDigit
  let (fraction, rest) : Text × Text :=
    match rest with
    | b :: more =>
      if b = '.' then (more.takeWhile Text.isDigit, more.dropWhile Text.isDigit)
      else ([], b :: more)
    | [] => ([], [])
  if whole.isEmpty && fraction.isEmpty then none
  else
    let digits := Text.digitsValue (whole ++ fraction)
    match rest with
    | [] => some ⟨digits, -fraction.length⟩
    | b :: more =>
      if b = 'e' || b = 'E' then
        (exponent? more).map fun e => ⟨digits, e - fraction.length⟩
      else none

/-- Whether the exponent alone makes a number smaller than any that double precision can hold. -/
def vanishes (d : Decimal) : Bool :=
  d.exponent < 0 && (Nat.toDigits 10 d.digits).length + 400 < d.exponent.natAbs

/-- Whether a number is below `bound`. Exponents far out of range are decided by their size, so
that no huge power is computed. -/
def below (bound : Nat) (d : Decimal) : Bool :=
  if d.digits = 0 || d.vanishes then true
  else if d.exponent < 0 then d.digits < bound * Nat.pow 10 d.exponent.natAbs
  else if 400 < d.exponent then false
  else d.digits * Nat.pow 10 d.exponent.natAbs < bound

/-- The least number that rounds to infinity in double precision. -/
def doubleBound : Nat := Nat.pow 2 1024 - Nat.pow 2 970

/-- The least number that rounds to infinity in single precision. -/
def singleBound : Nat := Nat.pow 2 128 - Nat.pow 2 103

def fraction (d : Decimal) : Nat × Nat :=
  if d.exponent < 0 then (d.digits, Nat.pow 10 d.exponent.natAbs)
  else (d.digits * Nat.pow 10 d.exponent.natAbs, 1)

/-- The quotient of two numbers rounded to the nearest natural number, a tie to the even one. -/
def roundDiv (n m : Nat) : Nat :=
  let q := n / m
  let r := n % m
  if m < 2 * r || (m = 2 * r && q % 2 = 1) then q + 1 else q

/-- The whole part of the nearest number in double precision, for numbers within its range. -/
def doubleFloor (d : Decimal) : Nat :=
  if d.vanishes then 0
  else
    let (n, m) := d.fraction
    let whole := n / m
    let bits := if whole = 0 then 0 else Nat.log2 whole + 1
    if bits ≤ 53 then
      let scale := Nat.pow 2 (53 - bits)
      roundDiv (n * scale) m / scale
    else
      let scale := Nat.pow 2 (bits - 53)
      roundDiv n (m * scale) * scale

/-- The number with 53 significant bits that is nearest to a fraction, as a fraction. -/
def nearest (n m : Nat) : Nat × Nat :=
  if n = 0 then (0, 1)
  else
    let shift := 64 + Nat.log2 m
    let surplus := Nat.log2 (n * Nat.pow 2 shift / m) + 1 - 53
    (roundDiv (n * Nat.pow 2 shift) (m * Nat.pow 2 surplus) * Nat.pow 2 surplus, Nat.pow 2 shift)

/-- The product of a natural number and a fraction, all rounded to 53 significant bits, without its
fractional part. -/
def scaled (factor n m : Nat) : Nat :=
  let f := nearest factor 1
  let q := nearest n m
  let p := nearest (f.1 * q.1) (f.2 * q.2)
  p.1 / p.2

end Decimal

end SheetFormula
