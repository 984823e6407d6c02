import SheetFormula.Text

/-!
# Timestamps

Dates, alone or with a time of day, in the spellings that make a YAML scalar a timestamp.
-/

namespace SheetFormula.Yaml.Timestamp

/-- Reads one or two digits. -/
def number? : Text → Option (Nat × Text)
  | a :: b :: rest =>
    if !Text.isDigit a then none
    else if Text.isDigit b then some ((a.toNat - 48) * 10 + (b.toNat - 48), rest)
    else some (a.toNat - 48, b :: rest)
  | [a] => if Text.isDigit a then some (a.toNat - 48, []) else none
  | [] => none

def twoDigits? : Text → Option Nat
  | [a, b] =>
    if Text.isDigit a && Text.isDigit b then some ((a.toNat - 48) * 10 + (b.toNat - 48)) else none
  | _ => none

/-- Reads a byte. -/
def mark? (b : UInt8) : Text → Option Text
  | a :: rest => if a = b then some rest else none
  | [] => none

def isLeap (year : Nat) : Bool := year % 4 == 0 && (year % 100 != 0 || year % 400 == 0)

def daysIn (year month : Nat) : Nat :=
  if month = 2 then (if isLeap year then 29 else 28)
  else if [4, 6, 9, 11].contains month then 30
  else 31

/-- Reads a date: a year of four digits, a month and a day. -/
def date? (t : Text) : Option Text := do
  let year := t.take 4
  if year.length < 4 || !year.all Text.isDigit then none
  else
    let rest ← mark? '-' (t.drop 4)
    let (month, rest) ← number? rest
    let rest ← mark? '-' rest
    let (day, rest) ← number? rest
    if 1 ≤ month && month ≤ 12 && 1 ≤ day && day ≤ daysIn (Text.digitsValue year) month then
      some rest
    else none

def dropFraction : Text → Text
  | a :: b :: rest =>
    if (a = '.' || a = ',') && Text.isDigit b then (b :: rest).dropWhile Text.isDigit
    else a :: b :: rest
  | t => t

/-- Reads a time of day. -/
def clock? (t : Text) : Option Text := do
  let (hour, rest) ← number? t
  let rest ← mark? ':' rest
  let (minute, rest) ← number? rest
  let rest ← mark? ':' rest
  let (second, rest) ← number? rest
  if hour < 24 && minute < 60 && second < 60 then some (dropFraction rest) else none

/-- Whether a text is a time zone: universal time, or an offset in hours and minutes. -/
def isZone (t : Text) : Bool :=
  match t with
  | [a, b, c, d, e, f] =>
    (a == '+' || a == '-') && d == ':'
      && (twoDigits? [b, c]).any (· ≤ 24) && (twoDigits? [e, f]).any (· ≤ 60)
  | [a] => a == 'Z'
  | _ => false

def recognises (t : Text) : Bool :=
  if (t.takeWhile Text.isDigit).length ≠ 4 then false
  else
    match date? t with
    | none => false
    | some [] => true
    | some (a :: rest) =>
      if a = 'T' || a = 't' then (clock? rest).any isZone
      else if a = ' ' then
        clock? (rest.dropWhile fun b : UInt8 => b == ' ') = some []
      else false

end SheetFormula.Yaml.Timestamp
