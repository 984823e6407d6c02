import Mathlib.Algebra.Group.Int.Defs
import Mathlib.Algebra.Group.Nat.Defs
import Mathlib.Data.List.TakeWhile
import Mathlib.Tactic.Lemma
import SheetFormula.Json.Number

/-!
# Decimal integers

An integer of 64 bits is read back from its decimal digits: no sum of digits wraps, the digits have
no leading zero, and a run of digits with or without a minus sign is a number.
-/

namespace SheetFormula

namespace Text

/-- The byte of a decimal digit. -/
def digit (d : Nat) : UInt8 := (Nat.digitChar d).toUInt8

lemma isDigit_digit : ∀ d < 10, isDigit (digit d) = true := by decide

lemma digit_toNat : ∀ d < 10, (digit d).toNat - 48 = d := by decide

lemma digit_ne_zero : ∀ d < 10, 0 < d → digit d ≠ '0' := by decide

lemma ofNat_of_lt {n : Nat} (h : n < 10) : ofNat n = [digit n] := by
  rw [ofNat, Nat.toDigits_of_lt_base h]
  rfl

lemma ofNat_of_le {n : Nat} (h : 10 ≤ n) : ofNat n = ofNat (n / 10) ++ [digit (n % 10)] := by
  rw [ofNat, Nat.toDigits_of_base_le (by decide) h, List.map_append]
  rfl

/-- A property of numbers and their digits, from one digit to the next. -/
@[elab_as_elim]
theorem digitsInduction {motive : Nat → Prop} (one : ∀ n < 10, motive n)
    (more : ∀ n, 10 ≤ n → motive (n / 10) → motive n) (n : Nat) : motive n := by
  induction n using Nat.strongRecOn with
  | ind n ih =>
    by_cases h : n < 10
    · exact one n h
    · exact more n (by omega) (ih (n / 10) (by omega))

lemma isDigit_of_mem_ofNat {n : Nat} {b : UInt8} (hb : b ∈ ofNat n) : isDigit b = true := by
  induction n using digitsInduction with
  | one n h =>
    rw [ofNat_of_lt h, List.mem_singleton] at hb
    exact hb ▸ isDigit_digit n h
  | more n h ih =>
    rw [ofNat_of_le h, List.mem_append, List.mem_singleton] at hb
    rcases hb with hb | rfl
    · exact ih hb
    · exact isDigit_digit _ (Nat.mod_lt n (by decide))

/-- Only zero starts with a zero. -/
lemma exists_ofNat_eq_cons (n : Nat) :
    ∃ a rest, ofNat n = a :: rest ∧ (a = '0' → n = 0 ∧ rest = []) := by
  induction n using digitsInduction with
  | one n h =>
    refine ⟨digit n, [], ofNat_of_lt h, fun hzero => ⟨?_, rfl⟩⟩
    by_contra hn
    exact digit_ne_zero n h (by omega) hzero
  | more n h ih =>
    obtain ⟨a, rest, hrest, hzero⟩ := ih
    refine ⟨a, rest ++ [digit (n % 10)], ?_, fun ha => ?_⟩
    · rw [ofNat_of_le h, hrest, List.cons_append]
    · obtain ⟨hn, -⟩ := hzero ha
      omega

end Text

namespace Json

lemma pushDigit_eq_some {n d : Nat} (hd : d < 10) (h : 10 * n + d < 2 ^ 64) :
    pushDigit n.toUInt64 (Text.digit d) = some (10 * n + d).toUInt64 := by
  have hsum : n.toUInt64 * 10 + ((Text.digit d).toNat - 48).toUInt64 = (10 * n + d).toUInt64 := by
    rw [Text.digit_toNat d hd, ← UInt64.toNat_inj]
    simp only [Nat.toUInt64, UInt64.toNat_add, UInt64.toNat_mul, UInt64.toNat_ofNat',
      UInt64.reduceToNat]
    omega
  have hgrows : ¬ (10 * n + d).toUInt64 < n.toUInt64 := by
    have hn : n % 2 ^ 64 = n := Nat.mod_eq_of_lt (by omega)
    have hm : (10 * n + d) % 2 ^ 64 = 10 * n + d := Nat.mod_eq_of_lt h
    simp only [Nat.toUInt64, UInt64.lt_iff_toNat_lt, UInt64.toNat_ofNat', hn, hm]
    omega
  simp only [pushDigit, hsum, hgrows, decide_false, Bool.and_false, Bool.false_eq_true, if_false]

lemma foldlM_pushDigit {n : Nat} (h : n < 2 ^ 64) :
    (Text.ofNat n).foldlM pushDigit 0 = some n.toUInt64 := by
  induction n using Text.digitsInduction with
  | one n hn =>
    have hpush : pushDigit (0 : Nat).toUInt64 (Text.digit n) = some (10 * 0 + n).toUInt64 :=
      pushDigit_eq_some hn (by omega)
    rw [Text.ofNat_of_lt hn]
    simpa using hpush
  | more n hn ih =>
    have hpush := pushDigit_eq_some (Nat.mod_lt n (by decide : 10 > 0))
      (by omega : 10 * (n / 10) + n % 10 < 2 ^ 64)
    rw [Text.ofNat_of_le hn, List.foldlM_append, ih (by omega)]
    simpa [Nat.div_add_mod] using hpush

lemma magnitude_ofNat {n : Nat} (h : n < 2 ^ 64) :
    magnitude? (Text.ofNat n) = some n.toUInt64 := by
  obtain ⟨a, rest, hdigits, hzero⟩ := Text.exists_ofNat_eq_cons n
  have hall : (a :: rest).all Text.isDigit = true := by
    rw [← hdigits, List.all_eq_true]
    exact fun b hb => Text.isDigit_of_mem_ofNat hb
  have hlead : (a = '0' && !rest.isEmpty) = false := by
    by_cases ha : a = '0'
    · simp [(hzero ha).2]
    · simp [ha]
  rw [hdigits, magnitude?, hlead, hall, ← hdigits]
  simpa using foldlM_pushDigit h

lemma toInt_toInt64 (n : Nat) : n.toUInt64.toInt64.toInt = (n : Int).bmod (2 ^ 64) := by
  simp [Int64.toInt_ofNat']

/-- An integer is read back from its digits. -/
lemma int64_ofInt (i : Int64) : int64? (Text.ofInt i.toInt) = some i := by
  have hlow := i.le_toInt
  have hhigh := i.toInt_lt
  have hmagnitude : magnitude? (Text.ofNat i.toInt.natAbs) = some i.toInt.natAbs.toUInt64 :=
    magnitude_ofNat (by omega)
  by_cases hsign : i.toInt < 0
  · have hfits : ¬ (0x8000000000000000 : UInt64) < i.toInt.natAbs.toUInt64 := by
      simp only [Nat.toUInt64, UInt64.lt_iff_toNat_lt, UInt64.toNat_ofNat', UInt64.reduceToNat]
      omega
    have hvalue : -i.toInt.natAbs.toUInt64.toInt64 = i := by
      rw [← Int64.toInt_inj, Int64.toInt_neg, toInt_toInt64]
      simp only [Int.bmod]
      omega
    rw [Text.ofInt, if_pos hsign, int64?, if_pos rfl, hmagnitude, Option.bind_some, if_neg hfits,
      hvalue]
  · have hfits : ¬ (0x7FFFFFFFFFFFFFFF : UInt64) < i.toInt.natAbs.toUInt64 := by
      simp only [Nat.toUInt64, UInt64.lt_iff_toNat_lt, UInt64.toNat_ofNat', UInt64.reduceToNat]
      omega
    have hvalue : i.toInt.natAbs.toUInt64.toInt64 = i := by
      rw [← Int64.toInt_inj, toInt_toInt64]
      simp only [Int.bmod]
      omega
    obtain ⟨a, rest, hdigits, -⟩ := Text.exists_ofNat_eq_cons i.toInt.natAbs
    have ha : a ≠ '-' := by
      rintro rfl
      have hdigit := Text.isDigit_of_mem_ofNat (hdigits ▸ List.mem_cons_self)
      exact absurd hdigit (by decide)
    rw [Text.ofInt, if_neg hsign, hdigits, int64?, if_neg ha, ← hdigits, hmagnitude,
      Option.bind_some, if_neg hfits, hvalue]

lemma isNumberByte_of_isDigit {b : UInt8} (h : Text.isDigit b = true) : isNumberByte b = true := by
  simp [isNumberByte, h]

lemma isNumberByte_of_mem_ofInt {n : Int} {b : UInt8} (hb : b ∈ Text.ofInt n) :
    isNumberByte b = true := by
  rw [Text.ofInt] at hb
  split at hb
  · rcases List.mem_cons.mp hb with rfl | hb
    · decide
    · exact isNumberByte_of_isDigit (Text.isDigit_of_mem_ofNat hb)
  · exact isNumberByte_of_isDigit (Text.isDigit_of_mem_ofNat hb)

lemma pointHasDigit_of_digits {t : Text} (h : ∀ b ∈ t, Text.isDigit b = true) :
    pointHasDigit t = true := by
  induction t with
  | nil => rfl
  | cons a rest ih =>
    obtain ⟨ha, hrest⟩ := List.forall_mem_cons.mp h
    have hpoint : a ≠ '.' := by
      rintro rfl
      exact absurd ha (by decide)
    unfold pointHasDigit
    rw [if_neg hpoint]
    exact ih hrest

lemma pointedDigits_of_digits {t : Text} (h : ∀ b ∈ t, Text.isDigit b = true) :
    pointedDigits t = true := by
  have hnone : t.countP (fun b : UInt8 => b == '.') = 0 := by
    refine List.countP_eq_zero.mpr fun b hb hpoint => ?_
    rw [beq_iff_eq.mp hpoint] at hb
    exact absurd (h _ hb) (by decide)
  simp [pointedDigits, hnone, pointHasDigit_of_digits h]

/-- Decimal digits with or without a minus sign are a number. -/
lemma isNumber_ofInt (n : Int) : isNumber (Text.ofInt n) = true := by
  obtain ⟨a, rest, hdigits, hzero⟩ := Text.exists_ofNat_eq_cons n.natAbs
  have hall : ∀ b ∈ a :: rest, Text.isDigit b = true := by
    rw [← hdigits]
    exact fun b hb => Text.isDigit_of_mem_ofNat hb
  have hnext : (a :: rest).dropWhile (fun b => Text.isDigit b || b == '.') = [] := by
    rw [List.dropWhile_eq_nil_iff]
    exact fun b hb => by simp [hall b hb]
  have hpointed := pointedDigits_of_digits hall
  rw [Text.ofInt, hdigits]
  split
  · rw [isNumber, if_neg (by decide)]
    simp only [if_true, hnext, hpointed]
    rfl
  · by_cases ha : a = '0'
    · obtain ⟨-, rfl⟩ := hzero ha
      rw [isNumber, if_pos ha]
      rfl
    · have hdigit : Text.isDigit a = true := hall a List.mem_cons_self
      have hminus : a ≠ '-' := by
        rintro rfl
        exact absurd hdigit (by decide)
      rw [isNumber, if_neg ha]
      simp only [if_neg hminus, hnext, hpointed, hdigit]
      rfl

end Json

end SheetFormula
