import SheetFormula.Proofs.Text.Symbol
import SheetFormula.Yaml.Stream

/-!
# Characters of a stream read back

The UTF-8 text of characters is read as these characters. A cursor that has passed some characters
is described by the characters that it has passed.
-/

namespace SheetFormula

namespace Yaml

lemma symbols_ofChars (cs : List Char) : (ofChars cs).symbols = cs.map .char := by
  induction cs with
  | nil => rfl
  | cons c cs ih => rw [ofChars, List.flatMap_cons, Text.symbols_utf8, ← ofChars, ih, List.map_cons]

/-- The text of characters is read as these characters. -/
lemma ofUtf8_ofChars (cs : List Char) : ofUtf8? (ofChars cs) = some cs := by
  rw [ofUtf8?, symbols_ofChars]
  induction cs with
  | nil => rfl
  | cons c cs ih => simp [List.map_cons, List.mapM_cons, ih]

@[simp] lemma ofChars_append (cs ds : List Char) : ofChars (cs ++ ds) = ofChars cs ++ ofChars ds :=
  List.flatMap_append

/-- A stream that does not start with a byte order mark is read as the characters it was written
from. -/
lemma chars_ofChars {c : Char} {cs : List Char} (hmark : c.toNat ≠ 0xFEFF)
    (hallowed : ∀ d ∈ c :: cs, isAllowed d = true) :
    chars? (ofChars (c :: cs)) = some (c :: cs) := by
  have hread := ofUtf8_ofChars (c :: cs)
  have hfirst : Text.firstChar? (ofChars (c :: cs)) = some (c, _) := Text.firstChar_utf8 c _
  have hall : (c :: cs).all isAllowed = true := List.all_eq_true.mpr hallowed
  unfold chars?
  split
  · rename_i rest hbytes
    rw [hbytes, Text.firstChar_eq_none _ (by decide)] at hfirst
    contradiction
  · rename_i rest hbytes
    rw [hbytes, Text.firstChar_eq_none _ (by decide)] at hfirst
    contradiction
  · rename_i rest hbytes
    rw [hbytes, Text.firstChar_three (n := 0xFEFF) rest rfl rfl rfl (by decide) (by decide)
      (by decide)] at hfirst
    simp only [Option.some.injEq, Prod.mk.injEq] at hfirst
    exact absurd (congrArg Char.toNat hfirst.1.symm) hmark
  · simp only [hread, Option.bind_eq_bind, Option.bind_some, hall, if_true]

/-! ### Cursors -/

namespace Cursor

variable {c : Cursor} {ch : Char} {w v rest more : List Char}

/-- The place after some characters without line breaks, with `rest` behind them. -/
def past (c : Cursor) (w rest : List Char) : Cursor :=
  { c with rest := rest, column := c.column + w.length, index := c.index + w.length
           fresh := c.fresh && w.all isBlank }

@[simp] lemma rest_past : (c.past w rest).rest = rest := rfl

@[simp] lemma line_past : (c.past w rest).line = c.line := rfl

@[simp] lemma column_past : (c.past w rest).column = c.column + w.length := rfl

@[simp] lemma index_past : (c.past w rest).index = c.index + w.length := rfl

@[simp] lemma fresh_past : (c.past w rest).fresh = (c.fresh && w.all isBlank) := rfl

lemma past_nil (h : c.rest = rest) : c.past [] rest = c := by
  subst h
  simp [past]

@[simp] lemma past_past : (c.past w rest).past v more = c.past (w ++ v) more := by
  simp [past, Nat.add_assoc, Bool.and_assoc]

lemma skip_eq (h : c.rest = ch :: rest) : c.skip = c.past [ch] rest := by
  simp [skip, h, past]

lemma skipN_succ (n : Nat) : c.skipN (n + 1) = c.skip.skipN n := by
  induction n with
  | zero => rfl
  | succ n ih => exact congrArg skip ih

lemma skipN_eq (h : c.rest = w ++ rest) : c.skipN w.length = c.past w rest := by
  induction w generalizing c with
  | nil => exact (past_nil h).symm
  | cons ch w ih => rw [List.length_cons, skipN_succ, skip_eq h, ih rfl, past_past]; rfl

lemma skipWhile_eq {p : Char → Bool} (h : c.rest = w ++ rest) (hw : ∀ d ∈ w, p d = true)
    (hrest : rest.head?.any p = false) : c.skipWhile p = c.past w rest := by
  have htake : rest.takeWhile p = [] := by
    cases rest with
    | nil => rfl
    | cons d rest => exact List.takeWhile_cons_of_neg (by simpa using hrest)
  rw [skipWhile, h, List.takeWhile_append_of_pos hw, htake, List.append_nil, skipN_eq h]

lemma documentIndicator_of_column (h : c.column ≠ 0) : c.documentIndicator = false := by
  simp [documentIndicator, documentMark, h]

end Cursor

end Yaml

end SheetFormula
