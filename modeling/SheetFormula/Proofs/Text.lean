import Mathlib.Tactic.Lemma
import SheetFormula.Text

/-!
# Facts about texts
-/

namespace SheetFormula.Text

@[simp] lemma join_nil (sep : Text) : join sep [] = [] := rfl

lemma join_cons_of_ne_nil {sep x : Text} {xs : List Text} (h : xs ≠ []) :
    join sep (x :: xs) = x ++ sep ++ join sep xs := by
  obtain ⟨y, rest, rfl⟩ := List.exists_cons_of_ne_nil h
  simp [join, List.intercalate_cons_cons]

lemma join_cons (sep x : Text) (xs : List Text) :
    join sep (x :: xs) = x ++ eachAfter sep xs := by
  induction xs generalizing x with
  | nil => simp [join, eachAfter]
  | cons y rest ih =>
    rw [join_cons_of_ne_nil (List.cons_ne_nil y rest), ih]
    simp [eachAfter]

lemma join_concat {sep : Text} {xs : List Text} (h : xs ≠ []) (x : Text) :
    join sep (xs ++ [x]) = join sep xs ++ sep ++ x := by
  obtain ⟨y, rest, rfl⟩ := List.exists_cons_of_ne_nil h
  rw [List.cons_append, join_cons, join_cons]
  simp [eachAfter]

lemma length_le_length_eachAfter (a : UInt8) (lead : Text) (parts : List Text) :
    parts.length ≤ (eachAfter (a :: lead) parts).length := by
  induction parts with
  | nil => exact Nat.zero_le _
  | cons x rest ih =>
    have hcons : eachAfter (a :: lead) (x :: rest) =
        (a :: lead) ++ x ++ eachAfter (a :: lead) rest := by simp [eachAfter]
    rw [hcons]
    simp only [List.length_cons, List.length_append]
    omega

/-! ### Pieces between separators -/

lemma splitOn_eq (sep : UInt8) (t : Text) : splitOn sep t = List.splitOn sep t := by
  induction t with
  | nil => rfl
  | cons a t ih =>
    rw [splitOn, ih, List.splitOn_cons_eq_if_modifyHead]
    obtain ⟨piece, rest, hs⟩ := List.exists_cons_of_ne_nil (List.splitOn_ne_nil sep t)
    by_cases ha : a = sep
    · rw [if_pos ha, if_pos (beq_iff_eq.mpr ha)]
    · rw [if_neg ha, if_neg (by simpa using ha), hs]
      rfl

lemma splitOn_append (sep : UInt8) (s t : Text) :
    splitOn sep (s ++ sep :: t) = splitOn sep s ++ splitOn sep t := by
  simp only [splitOn_eq, List.splitOn_append_cons_self]

lemma splitOn_of_not_mem {sep : UInt8} {t : Text} (h : sep ∉ t) : splitOn sep t = [t] := by
  rw [splitOn_eq, List.splitOn_eq_singleton h]

lemma splitOn_join {sep : UInt8} {pieces : List Text} (hne : pieces ≠ [])
    (h : ∀ p ∈ pieces, sep ∉ p) : splitOn sep (join [sep] pieces) = pieces := by
  rw [splitOn_eq, join, List.splitOn_intercalate sep h hne]

lemma not_mem_of_mem_splitOn {sep : UInt8} {t piece : Text} (h : piece ∈ splitOn sep t) :
    sep ∉ piece := by
  induction t generalizing piece with
  | nil =>
    rw [splitOn, List.mem_singleton] at h
    subst h
    exact List.not_mem_nil
  | cons a t ih =>
    obtain ⟨first, rest, hs⟩ :=
      List.exists_cons_of_ne_nil (splitOn_eq sep t ▸ List.splitOn_ne_nil sep t)
    rw [splitOn, hs] at h
    rw [hs] at ih
    split at h
    · rcases List.mem_cons.mp h with rfl | h
      · exact List.not_mem_nil
      · exact ih h
    · rename_i ha
      rcases List.mem_cons.mp h with rfl | h
      · rw [List.mem_cons, not_or]
        exact ⟨Ne.symm ha, ih List.mem_cons_self⟩
      · exact ih (List.mem_cons_of_mem _ h)

end SheetFormula.Text
