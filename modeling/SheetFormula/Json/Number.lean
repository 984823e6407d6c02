import SheetFormula.Decimal

/-!
# JSON numbers

Which spellings count as numbers, and which integers they stand for. The rules are wider than the
JSON grammar in places: after a minus sign a number may start with several zeros or with its point.
A number has to fit a floating-point format, and an integer has to fit 64 bits.
-/

namespace SheetFormula.Json

/-- Bytes that a number is spelled with. -/
def isNumberByte (b : UInt8) : Bool :=
  Text.isDigit b || b == '+' || b == '-' || b == '.' || b == 'e' || b == 'E'

/-- Whether the first point of a spelling is followed by a digit. -/
def pointHasDigit : Text → Bool
  | [] => true
  | a :: rest =>
    if a = '.' then
      match rest with
      | b :: _ => Text.isDigit b
      | [] => false
    else pointHasDigit rest

/-- Whether a spelling that starts with a zero is a number. -/
def zeroNumber (t : Text) : Bool :=
  match t with
  | _ :: b :: _ =>
    !Text.isDigit b && pointHasDigit t
      && ((Decimal.parse? t).map (Decimal.below Decimal.singleBound)).getD false
  | _ => true

/-- Whether digits and points alone spell a number: at most one point, with a digit behind it. -/
def pointedDigits (t : Text) : Bool := t.countP (fun b : UInt8 => b == '.') ≤ 1 && pointHasDigit t

/-- Whether a spelling with an exponent or an inner sign is a number, its leading minus aside. -/
def exponentNumber (t : Text) : Bool :=
  match t with
  | [] => false
  | a :: rest =>
    if a = '.' || (a = '0' && (rest.head?.map Text.isDigit).getD false) then
      (Decimal.parse? t).isSome
    else
      a ≠ '-' && pointHasDigit t
        && ((Decimal.parse? t).map (Decimal.below Decimal.doubleBound)).getD false

/-- Whether a run of number bytes is a number. -/
def isNumber (t : Text) : Bool :=
  match t with
  | [] => false
  | a :: rest =>
    if a = '0' then zeroNumber t
    else if !(Text.isDigit a || a = '-') then false
    else
      let body := if a = '-' then rest else t
      let plain := body.takeWhile fun b => Text.isDigit b || b == '.'
      let next := body.dropWhile fun b => Text.isDigit b || b == '.'
      if next.isEmpty then !body.isEmpty && pointedDigits body
      else pointedDigits plain && exponentNumber body

/-- Adds a digit to an integer of 64 bits. Beyond the range the sum wraps, which is noticed only
when it becomes smaller. -/
def pushDigit (n : UInt64) (digit : UInt8) : Option UInt64 :=
  let m := n * 10 + (digit.toNat - 48).toUInt64
  if 0xFFFFFFFFFFFFFFFF / 10 - 1 < n && m < n then none else some m

/-- The value of digits as an integer of 64 bits; a leading zero stands alone. -/
def magnitude? : Text → Option UInt64
  | [] => none
  | a :: rest =>
    if a = '0' && !rest.isEmpty then none
    else if !(a :: rest).all Text.isDigit then none
    else (a :: rest).foldlM pushDigit 0

/-- The signed integer of 64 bits that a spelling stands for. -/
def int64? (t : Text) : Option Int64 :=
  match t with
  | [] => none
  | a :: rest =>
    if a = '-' then
      (magnitude? rest).bind fun n =>
        if 0x8000000000000000 < n then none else some (-n.toInt64)
    else
      (magnitude? t).bind fun n => if 0x7FFFFFFFFFFFFFFF < n then none else some n.toInt64

end SheetFormula.Json
