import SheetFormula.Text

/-!
# Instants

Whole seconds from the start of 1970, and their text in universal time. The text has a fixed layout,
so that within four-digit years the order of texts is the order of instants.
-/

namespace SheetFormula

/-- A point in time, in seconds from the start of 1970. -/
structure Instant where
  seconds : Int
deriving DecidableEq, Repr

structure CalendarDay where
  year : Int
  month : Nat
  day : Nat
deriving DecidableEq, Repr

namespace CalendarDay

/-- The calendar day that is a number of days after the first of January 1970. Years are counted
from March in eras of 400 years, which all have the same length. -/
def ofDays (days : Int) : CalendarDay :=
  let shifted := days + 719468
  let era := shifted / 146097
  let dayOfEra := (shifted % 146097).toNat
  let yearOfEra := (dayOfEra - dayOfEra / 1460 + dayOfEra / 36524 - dayOfEra / 146096) / 365
  let dayOfYear := dayOfEra - (365 * yearOfEra + yearOfEra / 4 - yearOfEra / 100)
  let monthFromMarch := (5 * dayOfYear + 2) / 153
  let month := if monthFromMarch < 10 then monthFromMarch + 3 else monthFromMarch - 9
  { year := yearOfEra + era * 400 + (if month ≤ 2 then 1 else 0)
    month := month
    day := dayOfYear - (153 * monthFromMarch + 2) / 5 + 1 }

end CalendarDay

namespace Instant

/-- Digits with zeros in front up to a width. -/
def padded (width n : Nat) : Text :=
  let digits := Text.ofNat n
  List.replicate (width - digits.length) ('0' : UInt8) ++ digits

def yearText (year : Int) : Text := Text.when (year < 0) "-" ++ padded 4 year.natAbs

def text (i : Instant) : Text :=
  let day := CalendarDay.ofDays (i.seconds / 86400)
  let second := (i.seconds % 86400).toNat
  yearText day.year ++ "-" ++ padded 2 day.month ++ "-" ++ padded 2 day.day ++ "T"
    ++ padded 2 (second / 3600) ++ ":" ++ padded 2 (second / 60 % 60) ++ ":"
    ++ padded 2 (second % 60) ++ ".000000000Z"

end Instant

end SheetFormula
