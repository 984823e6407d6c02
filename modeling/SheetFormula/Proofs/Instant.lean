import Mathlib.Data.List.Forall2
import Mathlib.Order.Monotone.Basic
import Mathlib.Tactic.Lemma
import Mathlib.Tactic.SplitIfs
import SheetFormula.Instant
import SheetFormula.Proofs.Json.Number

/-!
# The order of instants

The calendar day of a later day is later, and the text of a later instant is greater. Days are
counted in years that start in March, so that the leap day is the last of its year: a day is then
given by the days before its year, the days before its month, and its place in the month.
-/

namespace SheetFormula

namespace CalendarDay

/-! ### Days counted from March -/

/-- The days before a year that starts in March, from year 0 on. -/
def yearStart (year : Int) : Int := 365 * year + year / 4 - year / 100 + year / 400

/-- The days before a month in its year. The months are counted from March, which is 0. -/
def monthStart (month : Nat) : Nat := (153 * month + 2) / 5

/-- A day of such a year, by its year, its month and its place in the month. -/
structure Counted (days year : Int) (month place : Nat) : Prop where
  days_eq : days + 719468 = yearStart year + monthStart month + place
  month_lt : month < 12
  in_month : monthStart month + place < monthStart (month + 1)
  in_year : yearStart year + monthStart month + place < yearStart (year + 1)

lemma yearStart_le {a b : Int} (h : a ≤ b) : yearStart a ≤ yearStart b := by
  unfold yearStart
  omega

lemma monthStart_le {a b : Nat} (h : a ≤ b) : monthStart a ≤ monthStart b := by
  unfold monthStart
  omega

/-- A later day is in a later year, or in a later month of the same year, or in a later place of
the same month. -/
lemma Counted.lt {days days' year year' : Int} {month month' place place' : Nat}
    (h : Counted days year month place) (h' : Counted days' year' month' place')
    (hlt : days < days') :
    year < year' ∨ year = year' ∧ (month < month' ∨ month = month' ∧ place < place') := by
  have hyear : year ≤ year' := by
    by_contra hafter
    have := yearStart_le (by omega : year' + 1 ≤ year)
    have := h.days_eq
    have := h'.days_eq
    have := h'.in_year
    omega
  rcases Int.lt_or_eq_of_le hyear with hyear | rfl
  · exact .inl hyear
  · have hmonth : month ≤ month' := by
      by_contra hafter
      have := monthStart_le (by omega : month' + 1 ≤ month)
      have := h.days_eq
      have := h'.days_eq
      have := h'.in_month
      omega
    have hdays := h.days_eq
    have hdays' := h'.days_eq
    rcases Nat.lt_or_eq_of_le hmonth with hmonth | rfl
    · exact .inr ⟨rfl, .inl hmonth⟩
    · exact .inr ⟨rfl, .inr ⟨rfl, by omega⟩⟩

/-! ### The year of a day in its era -/

/-- The days of an era up to a day without the leap days among them. -/
def commonDays (day : Nat) : Nat := day - day / 1460 + day / 36524 - day / 146096

/-- The days of an era before a year. -/
def eraYearStart (year : Nat) : Nat := 365 * year + year / 4 - year / 100 + year / 400

lemma commonDays_mono : Monotone commonDays := by
  apply monotone_nat_of_le_succ
  intro day
  unfold commonDays
  omega

/-- The first day of each year, and the last one. -/
lemma commonDays_year : ∀ year < 400, commonDays (eraYearStart year) = 365 * year ∧
    commonDays (eraYearStart (year + 1) - 1) < 365 * (year + 1) := by decide +kernel

lemma eraYear_length : ∀ year < 400, eraYearStart (year + 1) ≤ eraYearStart year + 366 := by
  decide +kernel

lemma eraYear_spec {day : Nat} (h : day < 146097) :
    commonDays day / 365 < 400 ∧ eraYearStart (commonDays day / 365) ≤ day ∧
      day < eraYearStart (commonDays day / 365 + 1) := by
  have hlast : commonDays day ≤ commonDays 146096 := commonDays_mono (by omega)
  have hlast' : commonDays 146096 = 145999 := rfl
  generalize hyear : commonDays day / 365 = year
  have hbound : year < 400 := by omega
  refine ⟨hbound, ?_, ?_⟩
  · by_contra hbefore
    -- The day would be in an earlier year.
    cases year with
    | zero => exact hbefore (Nat.zero_le _)
    | succ year =>
      have hprevious := (commonDays_year year (by omega)).2
      have hmono : commonDays day ≤ commonDays (eraYearStart (year + 1) - 1) :=
        commonDays_mono (by omega)
      omega
  · by_contra hafter
    by_cases hend : year + 1 < 400
    · have hnext := (commonDays_year (year + 1) hend).1
      have hmono : commonDays (eraYearStart (year + 1)) ≤ commonDays day :=
        commonDays_mono (by omega)
      omega
    · have hera : eraYearStart 400 = 146097 := rfl
      have heq : year + 1 = 400 := by omega
      rw [heq] at hafter
      omega

/-- The month of a day in its year, and its place there. -/
lemma month_spec {day : Nat} (h : day < 366) :
    (5 * day + 2) / 153 < 12 ∧ monthStart ((5 * day + 2) / 153) ≤ day ∧
      day < monthStart ((5 * day + 2) / 153 + 1) := by
  unfold monthStart
  omega

/-- The parts that a calendar day is computed from. -/
lemma ofDays_eq (days : Int) {era : Int} {day year dayOfYear month : Nat}
    (hera : (days + 719468) / 146097 = era) (hday : ((days + 719468) % 146097).toNat = day)
    (hyear : commonDays day / 365 = year)
    (hdayOfYear : day - (365 * year + year / 4 - year / 100) = dayOfYear)
    (hmonth : (5 * dayOfYear + 2) / 153 = month) :
    ofDays days =
      ⟨year + era * 400 + (if (if month < 10 then month + 3 else month - 9) ≤ 2 then 1 else 0),
        if month < 10 then month + 3 else month - 9, dayOfYear - monthStart month + 1⟩ := by
  subst hera hday hyear hdayOfYear hmonth
  rfl

/-- The calendar day of a number of days, by its count from March. January and February belong to
the calendar year after. -/
lemma exists_counted (days : Int) : ∃ year month place, Counted days year month place ∧
    ofDays days = ⟨if month < 10 then year else year + 1,
      if month < 10 then month + 3 else month - 9, place + 1⟩ := by
  have hday : ((days + 719468) % 146097).toNat < 146097 := by omega
  have hparts := ofDays_eq days rfl rfl rfl rfl rfl
  obtain ⟨hyear, hstart, hend⟩ := eraYear_spec hday
  have hshift : days + 719468 = 146097 * ((days + 719468) / 146097) +
      ((days + 719468) % 146097).toNat := by omega
  generalize ((days + 719468) % 146097).toNat = day at *
  generalize (days + 719468) / 146097 = era at *
  generalize commonDays day / 365 = year at *
  have hera : ∀ y : Nat, yearStart (400 * era + y) = 146097 * era + eraYearStart y := by
    intro y
    unfold yearStart eraYearStart
    omega
  have hdayOfYear : day - (365 * year + year / 4 - year / 100) = day - eraYearStart year := by
    unfold eraYearStart
    omega
  have hlength : day - eraYearStart year < 366 := by
    have := eraYear_length year hyear
    omega
  rw [hdayOfYear] at hparts
  obtain ⟨hmonth, hmonthStart, hmonthEnd⟩ := month_spec hlength
  generalize (5 * (day - eraYearStart year) + 2) / 153 = month at *
  have hnext := hera (year + 1)
  push_cast at hnext
  refine ⟨400 * era + year, month, day - eraYearStart year - monthStart month,
    ⟨?_, hmonth, ?_, ?_⟩, ?_⟩
  · rw [hera]
    omega
  · omega
  · rw [hera, add_assoc (400 * era), hnext]
    omega
  · rw [hparts]
    by_cases hearly : month < 10
    · rw [if_pos hearly, if_pos hearly, if_neg (by omega), add_zero, mul_comm, add_comm]
    · rw [if_neg hearly, if_neg hearly, if_pos (by omega), mul_comm era, add_comm (year : Int)]

lemma month_day_lt (days : Int) : (ofDays days).month < 100 ∧ (ofDays days).day < 100 := by
  obtain ⟨year, month, place, hcounted, hday⟩ := exists_counted days
  have hmonth := hcounted.month_lt
  have hplace := hcounted.in_month
  unfold monthStart at hplace
  rw [hday]
  refine ⟨?_, ?_⟩
  · show (if month < 10 then month + 3 else month - 9) < 100
    split_ifs <;> omega
  · show place + 1 < 100
    omega

/-- The calendar day of a later day is later. -/
lemma ofDays_lt {days days' : Int} (h : days < days') :
    (ofDays days).year < (ofDays days').year ∨
      (ofDays days).year = (ofDays days').year ∧
        ((ofDays days).month < (ofDays days').month ∨
          (ofDays days).month = (ofDays days').month ∧ (ofDays days).day < (ofDays days').day) := by
  obtain ⟨year, month, place, hcounted, hday⟩ := exists_counted days
  obtain ⟨year', month', place', hcounted', hday'⟩ := exists_counted days'
  have hlt := hcounted.lt hcounted' h
  have hmonth := hcounted.month_lt
  have hmonth' := hcounted'.month_lt
  rw [hday, hday']
  simp only
  split_ifs <;> omega

lemma year_le {days days' : Int} (h : days ≤ days') : (ofDays days).year ≤ (ofDays days').year := by
  rcases Int.lt_or_eq_of_le h with hlt | rfl
  · rcases ofDays_lt hlt with hyear | ⟨hyear, -⟩
    · exact hyear.le
    · exact hyear.le
  · exact le_rfl

end CalendarDay

/-! ### Numbers of a fixed width -/

lemma Text.append_lt_append {a b x y : Text} (hlength : a.length = b.length)
    (h : a < b ∨ a = b ∧ x < y) : a ++ x < b ++ y := by
  induction a generalizing b with
  | nil =>
    obtain rfl : b = [] := List.length_eq_zero_iff.mp hlength.symm
    rcases h with h | ⟨-, h⟩
    · exact absurd h (List.lt_irrefl _)
    · exact h
  | cons c a ih =>
    obtain ⟨d, b, rfl⟩ := List.exists_cons_of_length_pos (by rw [← hlength]; simp : 0 < b.length)
    rw [List.cons_append, List.cons_append, List.cons_lt_cons_iff]
    have hrest : a.length = b.length := by simpa using hlength
    rcases h with h | ⟨h, hxy⟩
    · rcases List.cons_lt_cons_iff.mp h with hcd | ⟨rfl, hab⟩
      · exact .inl hcd
      · exact .inr ⟨rfl, ih hrest (.inl hab)⟩
    · cases h
      exact .inr ⟨rfl, ih hrest (.inr ⟨rfl, hxy⟩)⟩

namespace Instant

lemma padded_one {n : Nat} (h : n < 10) : padded 1 n = [Text.digit n] := by
  rw [padded, Text.ofNat_of_lt h]
  rfl

/-- All digits but the last, and the last. -/
lemma padded_succ (width n : Nat) :
    padded (width + 2) n = padded (width + 1) (n / 10) ++ [Text.digit (n % 10)] := by
  by_cases h : n < 10
  · have hzero : n / 10 = 0 := by omega
    have hmod : n % 10 = n := by omega
    have hdigit : Text.digit 0 = '0' := rfl
    simp only [padded, Text.ofNat_of_lt h, hzero, hmod, Text.ofNat_of_lt (by omega : 0 < 10),
      List.length_singleton, Nat.add_sub_cancel, hdigit]
    rw [← List.replicate_succ', Nat.add_sub_assoc (by omega)]
  · simp only [padded, Text.ofNat_of_le (by omega : 10 ≤ n), List.length_append,
      List.length_singleton, List.append_assoc]
    congr 2
    omega

lemma length_padded (width : Nat) {n : Nat} (h : n < 10 ^ (width + 1)) :
    (padded (width + 1) n).length = width + 1 := by
  induction width generalizing n with
  | zero => rw [padded_one (by simpa using h)]; rfl
  | succ width ih =>
    rw [padded_succ, List.length_append, ih (by rw [Nat.pow_succ] at h; omega)]
    rfl

lemma digit_lt : ∀ d < 10, ∀ e < 10, d < e → Text.digit d < Text.digit e := by decide

lemma padded_lt (width : Nat) {m n : Nat} (h : m < n) (hn : n < 10 ^ (width + 1)) :
    padded (width + 1) m < padded (width + 1) n := by
  induction width generalizing m n with
  | zero =>
    have hn : n < 10 := by simpa using hn
    rw [padded_one hn, padded_one (by omega), List.cons_lt_cons_iff]
    exact .inl (digit_lt m (by omega) n hn h)
  | succ width ih =>
    rw [Nat.pow_succ] at hn
    rw [padded_succ, padded_succ]
    apply Text.append_lt_append
    · rw [length_padded width (by omega), length_padded width (by omega)]
    · rcases Nat.lt_or_eq_of_le (Nat.div_le_div_right (c := 10) h.le) with hlt | heq
      · exact .inl (ih hlt (by omega))
      · refine .inr ⟨by rw [heq], List.cons_lt_cons_iff.mpr (.inl ?_)⟩
        exact digit_lt _ (by omega) _ (by omega) (by omega)

/-! ### The layout -/

/-- Numbers one after the other, each with its width less one and the text behind it. -/
def inLayout : (layout : List (Nat × Text)) → (numbers : List Nat) → Text
  | (width, mark) :: layout, n :: numbers =>
    padded (width + 1) n ++ (mark ++ inLayout layout numbers)
  | _, _ => []

/-- Numbers that fit their widths. -/
def Fit (layout : List (Nat × Text)) (numbers : List Nat) : Prop :=
  List.Forall₂ (fun field n => n < 10 ^ (field.1 + 1)) layout numbers

/-- Greater numbers have a greater text, where the first difference decides. -/
lemma inLayout_lt {layout : List (Nat × Text)} {numbers numbers' : List Nat}
    (h : Fit layout numbers) (h' : Fit layout numbers') (hlt : numbers < numbers') :
    inLayout layout numbers < inLayout layout numbers' := by
  induction layout generalizing numbers numbers' with
  | nil =>
    cases h
    cases h'
    exact absurd hlt (List.lt_irrefl _)
  | cons field layout ih =>
    obtain ⟨width, mark⟩ := field
    cases h with
    | cons hn hrest =>
      cases h' with
      | cons hn' hrest' =>
        rw [inLayout, inLayout]
        apply Text.append_lt_append
        · rw [length_padded width hn, length_padded width hn']
        · rcases List.cons_lt_cons_iff.mp hlt with hfirst | ⟨rfl, hlater⟩
          · exact .inl (padded_lt width hfirst hn')
          · exact .inr ⟨rfl, Text.append_lt_append rfl (.inr ⟨rfl, ih hrest hrest' hlater⟩)⟩

def calendarDay (i : Instant) : CalendarDay := CalendarDay.ofDays (i.seconds / 86400)

/-- The second of its day that an instant is in. -/
def secondOfDay (i : Instant) : Nat := (i.seconds % 86400).toNat

/-- The year has four digits. -/
def HasYear (i : Instant) : Prop := 0 ≤ i.calendarDay.year ∧ i.calendarDay.year ≤ 9999

instance decidableHasYear (i : Instant) : Decidable i.HasYear :=
  inferInstanceAs (Decidable (_ ∧ _))

/-- From the first second of year 0 to the last one of year 9999. -/
lemma hasYear_iff (i : Instant) :
    i.HasYear ↔ -62167219200 ≤ i.seconds ∧ i.seconds < 253402300800 := by
  have hbefore : (CalendarDay.ofDays (-719529)).year = -1 := by decide
  have hfirst : (CalendarDay.ofDays (-719528)).year = 0 := by decide
  have hlast : (CalendarDay.ofDays 2932896).year = 9999 := by decide
  have hafter : (CalendarDay.ofDays 2932897).year = 10000 := by decide
  rw [HasYear, calendarDay]
  constructor
  · rintro ⟨hlow, hhigh⟩
    constructor
    · by_contra hearly
      have := CalendarDay.year_le (by omega : i.seconds / 86400 ≤ -719529)
      omega
    · by_contra hlate
      have := CalendarDay.year_le (by omega : 2932897 ≤ i.seconds / 86400)
      omega
  · rintro ⟨hlow, hhigh⟩
    have hlow := CalendarDay.year_le (by omega : -719528 ≤ i.seconds / 86400)
    have hhigh := CalendarDay.year_le (by omega : i.seconds / 86400 ≤ 2932896)
    omega

def numbers (i : Instant) : List Nat :=
  [i.calendarDay.year.toNat, i.calendarDay.month, i.calendarDay.day, i.secondOfDay / 3600,
    i.secondOfDay / 60 % 60, i.secondOfDay % 60]

def layout : List (Nat × Text) :=
  [(3, "-"), (1, "-"), (1, "T"), (1, ":"), (1, ":"), (1, ".000000000Z")]

lemma text_eq {i : Instant} (h : i.HasYear) : i.text = inLayout layout i.numbers := by
  have hyear : yearText i.calendarDay.year = padded 4 i.calendarDay.year.toNat := by
    have hsign : ¬ i.calendarDay.year < 0 := by have := h.1; omega
    have habs : i.calendarDay.year.natAbs = i.calendarDay.year.toNat := by have := h.1; omega
    simp [yearText, Text.when, hsign, habs]
  change yearText i.calendarDay.year ++ "-" ++ padded 2 i.calendarDay.month ++ "-" ++
    padded 2 i.calendarDay.day ++ "T" ++ padded 2 (i.secondOfDay / 3600) ++ ":" ++
    padded 2 (i.secondOfDay / 60 % 60) ++ ":" ++ padded 2 (i.secondOfDay % 60) ++
    ".000000000Z" = _
  simp only [hyear, layout, numbers, inLayout, List.append_assoc, List.append_nil]

lemma fit_numbers {i : Instant} (h : i.HasYear) : Fit layout i.numbers := by
  obtain ⟨hmonth, hday⟩ := CalendarDay.month_day_lt (i.seconds / 86400)
  have hsecond : i.secondOfDay < 86400 := by unfold secondOfDay; omega
  have hyear : i.calendarDay.year.toNat < 10000 := by have := h.2; omega
  refine List.Forall₂.cons hyear (.cons hmonth (.cons hday (.cons ?_ (.cons ?_ (.cons ?_ .nil)))))
  · show i.secondOfDay / 3600 < 100
    omega
  · show i.secondOfDay / 60 % 60 < 100
    omega
  · show i.secondOfDay % 60 < 100
    omega

lemma numbers_lt {i j : Instant} (hi : i.HasYear) (hj : j.HasYear) (h : i.seconds < j.seconds) :
    i.numbers < j.numbers := by
  have hyear := hi.1
  have hyear' := hj.1
  simp only [numbers, List.cons_lt_cons_iff]
  have hle : i.seconds / 86400 ≤ j.seconds / 86400 := Int.ediv_le_ediv (by decide) h.le
  rcases Int.lt_or_eq_of_le hle with hdays | hdays
  · have hlt := CalendarDay.ofDays_lt hdays
    simp only [calendarDay] at *
    omega
  · have hday : i.calendarDay = j.calendarDay := by rw [calendarDay, hdays, calendarDay]
    have hsecond : i.secondOfDay < j.secondOfDay := by unfold secondOfDay; omega
    rw [hday]
    omega

/-- The text of a later instant is greater. -/
lemma text_lt {i j : Instant} (hi : i.HasYear) (hj : j.HasYear) (h : i.seconds < j.seconds) :
    i.text < j.text := by
  rw [text_eq hi, text_eq hj]
  exact inLayout_lt (fit_numbers hi) (fit_numbers hj) (numbers_lt hi hj h)

/-- Different times have different texts. -/
lemma seconds_eq {i j : Instant} (hi : i.HasYear) (hj : j.HasYear) (h : i.text = j.text) :
    i.seconds = j.seconds := by
  rcases lt_trichotomy i.seconds j.seconds with hlt | heq | hgt
  · have hless := text_lt hi hj hlt
    rw [h] at hless
    exact absurd hless (List.lt_irrefl _)
  · exact heq
  · have hless := text_lt hj hi hgt
    rw [h] at hless
    exact absurd hless (List.lt_irrefl _)

/-- Texts are in the order of the instants. -/
lemma text_lt_iff {i j : Instant} (hi : i.HasYear) (hj : j.HasYear) :
    i.text < j.text ↔ i.seconds < j.seconds := by
  refine ⟨fun h => ?_, text_lt hi hj⟩
  rcases lt_trichotomy i.seconds j.seconds with hlt | heq | hgt
  · exact hlt
  · obtain rfl : i = j := by
      cases i
      cases j
      simpa using heq
    exact absurd h (List.lt_irrefl _)
  · exact absurd (List.lt_trans h (text_lt hj hi hgt)) (List.lt_irrefl _)

end Instant

end SheetFormula
