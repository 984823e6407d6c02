import SheetFormula.Decimal

/-!
# Durations

A duration is a number of nanoseconds in 64 bits. It is written in hours, minutes and seconds, or
below a second in the largest unit that leaves a whole part, and read as a sum of numbers with
units.
-/

namespace SheetFormula

structure Duration where
  nanoseconds : Int64
deriving DecidableEq, Repr

namespace Duration

def ofMilliseconds (n : Nat) : Duration := ⟨Int64.ofNat (n * 1000000)⟩

def isNegative (d : Duration) : Bool := d.nanoseconds < 0

/-- A number over a power of ten, without zeros at the end of its fraction. -/
def fixedPoint (places n : Nat) : Text :=
  let fraction := Text.ofNat (n % Nat.pow 10 places)
  let padded := List.replicate (places - fraction.length) ('0' : UInt8) ++ fraction
  let significant := (padded.reverse.dropWhile fun b : UInt8 => b == '0').reverse
  Text.ofNat (n / Nat.pow 10 places) ++ Text.when (!significant.isEmpty) ("." ++ significant)

/-- The text of a number of nanoseconds. -/
def magnitudeText (n : Nat) : Text :=
  let minute := 60000000000
  let hour := 60 * minute
  if n = 0 then "0s"
  else if n < 1000 then Text.ofNat n ++ "ns"
  else if n < 1000000 then fixedPoint 3 n ++ "µs"
  else if n < 1000000000 then fixedPoint 6 n ++ "ms"
  else
    Text.when (hour ≤ n) (Text.ofNat (n / hour) ++ "h")
      ++ Text.when (minute ≤ n) (Text.ofNat (n % hour / minute) ++ "m")
      ++ fixedPoint 9 (n % minute) ++ "s"

def text (d : Duration) : Text :=
  Text.when d.isNegative "-" ++ magnitudeText d.nanoseconds.toInt.natAbs

def units : List (Text × Nat) :=
  [("ns", 1), ("us", 1000), ("µs", 1000), ("μs", 1000), ("ms", 1000000), ("s", 1000000000),
   ("m", 60000000000), ("h", 3600000000000)]

/-- The digits of a fraction as a number, and how many they are. Digits that lead beyond 64 bits are
left out. -/
def fractionDigits : (value count : Nat) → Text → Nat × Nat
  | value, count, [] => (value, count)
  | value, count, b :: rest =>
    let next := 10 * value + (b.toNat - 48)
    if Nat.pow 2 63 < next then (value, count) else fractionDigits next (count + 1) rest

/-- A number with its unit, in nanoseconds. -/
def term? (whole fraction unit : Text) : Option Nat := do
  let scale ← units.lookup unit
  let n := Text.digitsValue whole
  let (value, count) := fractionDigits 0 0 fraction
  let total := n * scale + (if value = 0 then 0 else Decimal.scaled value scale (Nat.pow 10 count))
  let limit := Nat.pow 2 63
  if n ≤ limit && n * scale ≤ limit && total ≤ limit then some total else none

def isNumeric (b : UInt8) : Bool := b == '.' || Text.isDigit b

/-- The sum of the numbers with units in a text; there is no sum beyond 64 bits. -/
def sum? : (rounds : Nat) → (total : Nat) → Text → Option Nat
  | _, total, [] => some total
  | 0, _, _ => none
  | rounds + 1, total, t => do
    let whole := t.takeWhile Text.isDigit
    let rest := t.dropWhile Text.isDigit
    let (fraction, rest) : Text × Text :=
      match rest with
      | b :: more =>
        if b = '.' then (more.takeWhile Text.isDigit, more.dropWhile Text.isDigit)
        else ([], b :: more)
      | [] => ([], [])
    let value ← term? whole fraction (rest.takeWhile (!isNumeric ·))
    if whole.isEmpty && fraction.isEmpty || Nat.pow 2 63 < total + value then none
    else sum? rounds (total + value) (rest.dropWhile (!isNumeric ·))

def parse? (t : Text) : Option Duration :=
  let body := Decimal.unsigned t
  if body = "0" then some ⟨0⟩
  else if body.isEmpty then none
  else
    (sum? body.length 0 body).bind fun n =>
      if t.head? == some ('-' : UInt8) then some ⟨Int64.ofInt (-(n : Int))⟩
      else if n < Nat.pow 2 63 then some ⟨Int64.ofNat n⟩
      else none

end Duration

end SheetFormula
