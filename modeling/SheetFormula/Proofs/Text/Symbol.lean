import Mathlib.Data.List.Basic
import Mathlib.Tactic.Lemma
import Mathlib.Tactic.SplitIfs
import SheetFormula.Text.Blank

/-!
# Characters of a text read back

The UTF-8 bytes of a character are read as this character, whatever follows them. Conversely a
character that is read has the bytes that it was read from, so a text is put together again from its
symbols. The bytes of a character occur only where the character stands.
-/

namespace SheetFormula

/-! ### Characters of bytes -/

namespace Symbol

variable {a b c d : UInt8} {n : Nat}

lemma isTail_iff : isTail b = true ↔ 0x80 ≤ b.toNat ∧ b.toNat ≤ 0xBF := by
  simp [isTail, UInt8.le_iff_toNat_le]

lemma two_eq_none (ha : 0xDF < a.toNat) : two? a b = none := by
  rw [two?, if_neg]
  simp only [Bool.and_eq_true, decide_eq_true_eq, UInt8.le_iff_toNat_le]
  rintro ⟨⟨_, hle⟩, _⟩
  exact absurd hle (Nat.not_le.mpr ha)

lemma three_eq_none (ha : 0xEF < a.toNat) : three? a b c = none := by
  rw [three?, if_neg]
  simp only [Bool.and_eq_true, decide_eq_true_eq, UInt8.le_iff_toNat_le]
  rintro ⟨⟨⟨⟨⟨_, hle⟩, _⟩, _⟩, _⟩, _⟩
  exact absurd hle (Nat.not_le.mpr ha)

lemma four_eq_none (ha : 0xF4 < a.toNat) : four? a b c d = none := by
  rw [four?, if_neg]
  simp only [Bool.and_eq_true, decide_eq_true_eq, UInt8.le_iff_toNat_le]
  rintro ⟨⟨⟨⟨⟨⟨_, hle⟩, _⟩, _⟩, _⟩, _⟩, _⟩
  exact absurd hle (Nat.not_le.mpr ha)

lemma two_eq_some (ha : a.toNat = n / 64 + 0xC0) (hb : b.toNat = n % 64 + 0x80)
    (hlow : 0x7F < n) (hhigh : n ≤ 0x7FF) : two? a b = some (Char.ofNat n) := by
  rw [two?, if_pos]
  · rw [ha, hb, show (n / 64 + 0xC0 - 0xC0) * 64 + (n % 64 + 0x80 - 0x80) = n by omega]
  · simp [isTail_iff, UInt8.le_iff_toNat_le]
    omega

lemma three_eq_some (ha : a.toNat = n / 4096 + 0xE0) (hb : b.toNat = n / 64 % 64 + 0x80)
    (hc : c.toNat = n % 64 + 0x80) (hlow : 0x7FF < n) (hhigh : n ≤ 0xFFFF)
    (hpair : n < 0xD800 ∨ 0xDFFF < n) : three? a b c = some (Char.ofNat n) := by
  rw [three?, if_pos]
  · rw [ha, hb, hc, show (n / 4096 + 0xE0 - 0xE0) * 4096 + (n / 64 % 64 + 0x80 - 0x80) * 64 +
      (n % 64 + 0x80 - 0x80) = n by omega]
  · simp [isTail_iff, UInt8.le_iff_toNat_le, ← UInt8.toNat_inj]
    omega

lemma four_eq_some (ha : a.toNat = n / 262144 + 0xF0) (hb : b.toNat = n / 4096 % 64 + 0x80)
    (hc : c.toNat = n / 64 % 64 + 0x80) (hd : d.toNat = n % 64 + 0x80) (hlow : 0xFFFF < n)
    (hhigh : n < 0x110000) : four? a b c d = some (Char.ofNat n) := by
  rw [four?, if_pos]
  · rw [ha, hb, hc, hd, show (n / 262144 + 0xF0 - 0xF0) * 262144 +
      (n / 4096 % 64 + 0x80 - 0x80) * 4096 + (n / 64 % 64 + 0x80 - 0x80) * 64 +
      (n % 64 + 0x80 - 0x80) = n by omega]
  · simp [isTail_iff, UInt8.le_iff_toNat_le, ← UInt8.toNat_inj]
    omega

end Symbol

namespace Text

section

variable {a b c d : UInt8} {n : Nat} (rest : Text)

lemma not_ascii (h : 0x80 ≤ a.toNat) : ¬ a < 0x80 := by
  rw [UInt8.lt_iff_toNat_lt]
  exact Nat.not_lt.mpr h

lemma firstChar_one (ha : a.toNat = n) (hhigh : n ≤ 0x7F) :
    firstChar? (a :: rest) = some (Char.ofNat n, 0) := by
  have hascii : a < 0x80 := by
    rw [UInt8.lt_iff_toNat_lt, ha]
    exact Nat.lt_succ_of_le hhigh
  simp only [firstChar?, if_pos hascii, ha]

lemma firstChar_two (ha : a.toNat = n / 64 + 0xC0) (hb : b.toNat = n % 64 + 0x80)
    (hlow : 0x7F < n) (hhigh : n ≤ 0x7FF) :
    firstChar? (a :: b :: rest) = some (Char.ofNat n, 1) := by
  have hascii := not_ascii (a := a) (by omega)
  have htwo := Symbol.two_eq_some ha hb hlow hhigh
  rcases rest with _ | ⟨x, _ | ⟨y, rest⟩⟩ <;> simp [firstChar?, hascii, htwo]

lemma firstChar_three (ha : a.toNat = n / 4096 + 0xE0) (hb : b.toNat = n / 64 % 64 + 0x80)
    (hc : c.toNat = n % 64 + 0x80) (hlow : 0x7FF < n) (hhigh : n ≤ 0xFFFF)
    (hpair : n < 0xD800 ∨ 0xDFFF < n) :
    firstChar? (a :: b :: c :: rest) = some (Char.ofNat n, 2) := by
  have hascii := not_ascii (a := a) (by omega)
  have htwo := Symbol.two_eq_none (a := a) (b := b) (by omega)
  have hthree := Symbol.three_eq_some ha hb hc hlow hhigh hpair
  rcases rest with _ | ⟨x, rest⟩ <;> simp [firstChar?, hascii, htwo, hthree]

lemma firstChar_four (ha : a.toNat = n / 262144 + 0xF0) (hb : b.toNat = n / 4096 % 64 + 0x80)
    (hc : c.toNat = n / 64 % 64 + 0x80) (hd : d.toNat = n % 64 + 0x80) (hlow : 0xFFFF < n)
    (hhigh : n < 0x110000) :
    firstChar? (a :: b :: c :: d :: rest) = some (Char.ofNat n, 3) := by
  have hascii := not_ascii (a := a) (by omega)
  have htwo := Symbol.two_eq_none (a := a) (b := b) (by omega)
  have hthree := Symbol.three_eq_none (a := a) (b := b) (c := c) (by omega)
  have hfour := Symbol.four_eq_some ha hb hc hd hlow hhigh
  simp [firstChar?, hascii, htwo, hthree, hfour]

/-- No character starts with a byte above those that start four. -/
lemma firstChar_eq_none (ha : 0xF4 < a.toNat) : firstChar? (a :: rest) = none := by
  have hascii := not_ascii (a := a) (by omega)
  have htwo : ∀ b, Symbol.two? a b = none := fun b => Symbol.two_eq_none (by omega)
  have hthree : ∀ b c, Symbol.three? a b c = none := fun b c => Symbol.three_eq_none (by omega)
  have hfour : ∀ b c d, Symbol.four? a b c d = none := fun b c d => Symbol.four_eq_none ha
  rcases rest with _ | ⟨b, _ | ⟨c, _ | ⟨d, rest⟩⟩⟩ <;>
    simp [firstChar?, hascii, htwo, hthree, hfour]

end

/-- A character is read at the start of its bytes, whatever follows them. -/
lemma firstChar_utf8 (c : Char) (rest : Text) :
    firstChar? (String.utf8EncodeChar c ++ rest) =
      some (c, (String.utf8EncodeChar c).length - 1) := by
  have hvalid : c.val.toNat < 0xD800 ∨ 0xDFFF < c.val.toNat ∧ c.val.toNat < 0x110000 := c.valid
  have hchar : Char.ofNat c.val.toNat = c := Char.ofNat_toNat c
  have hbyte : ∀ {m k : Nat}, m = k → k < 256 → (UInt8.ofNat m).toNat = k := by
    rintro m k rfl hm
    simp [Nat.mod_eq_of_lt hm]
  unfold String.utf8EncodeChar
  generalize c.val.toNat = n at hvalid hchar ⊢
  subst hchar
  dsimp only
  split_ifs with h1 h2 h3
  · exact firstChar_one rest (hbyte rfl (by omega)) h1
  · exact firstChar_two rest (hbyte (by omega) (by omega)) (hbyte rfl (by omega)) (by omega) h2
  · exact firstChar_three rest (hbyte (by omega) (by omega)) (hbyte rfl (by omega))
      (hbyte rfl (by omega)) (by omega) h3 (by omega)
  · exact firstChar_four rest (hbyte (by omega) (by omega)) (hbyte rfl (by omega))
      (hbyte rfl (by omega)) (hbyte rfl (by omega)) (by omega) (by omega)

lemma symbolsFrom_length (t rest : Text) : symbolsFrom t.length (t ++ rest) = symbols rest := by
  induction t with
  | nil => rfl
  | cons a t ih => exact ih

/-- The symbols of the bytes of a character and of what follows. -/
lemma symbols_utf8 (c : Char) (rest : Text) :
    symbols (String.utf8EncodeChar c ++ rest) = .char c :: symbols rest := by
  have hfirst := firstChar_utf8 c rest
  cases hbytes : String.utf8EncodeChar c with
  | nil =>
    have hlength := String.length_utf8EncodeChar c
    rw [hbytes] at hlength
    exact absurd hlength (Nat.ne_of_lt c.utf8Size_pos)
  | cons a t =>
    rw [hbytes] at hfirst
    rw [List.cons_append] at hfirst ⊢
    rw [symbols, symbolsFrom, hfirst]
    exact congrArg (Symbol.char c :: ·) (symbolsFrom_length t rest)

end Text

/-! ### Bytes of characters -/

section

variable {a b c d : UInt8} {n : Nat} {ch : Char} {rest : Text}

namespace Symbol

lemma toNat_ofNat (h : n.isValidChar) : (Char.ofNat n).val.toNat = n := by
  rw [Char.ofNat, dif_pos h]
  rfl

lemma utf8_of_ascii (h : a < 0x80) : String.utf8EncodeChar (Char.ofNat a.toNat) = [a] := by
  have ha : a.toNat < 0x80 := UInt8.lt_iff_toNat_lt.mp h
  have hval := toNat_ofNat (n := a.toNat) (.inl (by omega))
  simp only [String.utf8EncodeChar, hval, if_pos (Nat.le_of_lt_succ ha), UInt8.ofNat_toNat]

lemma utf8_of_two (h : two? a b = some ch) : String.utf8EncodeChar ch = [a, b] := by
  rw [two?] at h
  split_ifs at h with hrange
  obtain rfl := Option.some.inj h
  simp only [Bool.and_eq_true, decide_eq_true_eq, UInt8.le_iff_toNat_le, isTail_iff,
    UInt8.reduceToNat] at hrange
  obtain ⟨n, hn⟩ : ∃ n, n = (a.toNat - 0xC0) * 64 + (b.toNat - 0x80) := ⟨_, rfl⟩
  rw [← hn]
  have hval := toNat_ofNat (n := n) (.inl (by omega))
  have ha : n / 64 % 32 + 192 = a.toNat := by omega
  have hb : n % 64 + 128 = b.toNat := by omega
  simp only [String.utf8EncodeChar, hval, if_neg (show ¬ n ≤ 0x7F by omega),
    if_pos (show n ≤ 0x7FF by omega), ha, hb, UInt8.ofNat_toNat]

lemma utf8_of_three (h : three? a b c = some ch) : String.utf8EncodeChar ch = [a, b, c] := by
  rw [three?] at h
  split_ifs at h with hrange
  obtain rfl := Option.some.inj h
  simp only [Bool.and_eq_true, Bool.or_eq_true, bne_iff_ne, decide_eq_true_eq, ne_eq,
    ← UInt8.toNat_inj, UInt8.le_iff_toNat_le, isTail_iff, UInt8.reduceToNat] at hrange
  obtain ⟨n, hn⟩ : ∃ n, n = (a.toNat - 0xE0) * 4096 + (b.toNat - 0x80) * 64 +
      (c.toNat - 0x80) := ⟨_, rfl⟩
  rw [← hn]
  have hvalid : n.isValidChar := by
    rw [Nat.isValidChar]
    omega
  have hval := toNat_ofNat hvalid
  have ha : n / 4096 % 16 + 224 = a.toNat := by omega
  have hb : n / 64 % 64 + 128 = b.toNat := by omega
  have hc : n % 64 + 128 = c.toNat := by omega
  simp only [String.utf8EncodeChar, hval, if_neg (show ¬ n ≤ 0x7F by omega),
    if_neg (show ¬ n ≤ 0x7FF by omega), if_pos (show n ≤ 0xFFFF by omega), ha, hb, hc,
    UInt8.ofNat_toNat]

lemma utf8_of_four (h : four? a b c d = some ch) : String.utf8EncodeChar ch = [a, b, c, d] := by
  rw [four?] at h
  split_ifs at h with hrange
  obtain rfl := Option.some.inj h
  simp only [Bool.and_eq_true, Bool.or_eq_true, bne_iff_ne, decide_eq_true_eq, ne_eq,
    ← UInt8.toNat_inj, UInt8.le_iff_toNat_le, isTail_iff, UInt8.reduceToNat] at hrange
  obtain ⟨n, hn⟩ : ∃ n, n = (a.toNat - 0xF0) * 262144 + (b.toNat - 0x80) * 4096 +
      (c.toNat - 0x80) * 64 + (d.toNat - 0x80) := ⟨_, rfl⟩
  rw [← hn]
  have hvalid : n.isValidChar := by
    rw [Nat.isValidChar]
    omega
  have hval := toNat_ofNat hvalid
  have ha : n / 262144 % 8 + 240 = a.toNat := by omega
  have hb : n / 4096 % 64 + 128 = b.toNat := by omega
  have hc : n / 64 % 64 + 128 = c.toNat := by omega
  have hd : n % 64 + 128 = d.toNat := by omega
  simp only [String.utf8EncodeChar, hval, if_neg (show ¬ n ≤ 0x7F by omega),
    if_neg (show ¬ n ≤ 0x7FF by omega), if_neg (show ¬ n ≤ 0xFFFF by omega), ha, hb, hc, hd,
    UInt8.ofNat_toNat]

end Symbol

namespace Text

/-- A character that is read has the bytes that it is read from. -/
lemma utf8_of_firstChar {more : Nat} (h : firstChar? (a :: rest) = some (ch, more)) :
    a :: rest = String.utf8EncodeChar ch ++ rest.drop more := by
  by_cases ha : a < 0x80
  · simp only [firstChar?, if_pos ha, Option.some.injEq, Prod.mk.injEq] at h
    obtain ⟨rfl, rfl⟩ := h
    rw [Symbol.utf8_of_ascii ha]
    rfl
  · rcases rest with _ | ⟨b, _ | ⟨c, _ | ⟨d, rest⟩⟩⟩ <;>
      simp only [firstChar?, if_neg ha, Option.orElse_eq_orElse, Option.orElse_eq_or,
        Option.or_eq_some_iff, Option.map_eq_some_iff, Option.map_eq_none_iff, Prod.mk.injEq,
        reduceCtorEq] at h
    · obtain ⟨_, h, rfl, rfl⟩ := h
      rw [Symbol.utf8_of_two h]
      rfl
    · rcases h with ⟨_, h, rfl, rfl⟩ | ⟨-, _, h, rfl, rfl⟩
      · rw [Symbol.utf8_of_two h]
        rfl
      · rw [Symbol.utf8_of_three h]
        rfl
    · rcases h with ⟨_, h, rfl, rfl⟩ | ⟨-, ⟨_, h, rfl, rfl⟩ | ⟨-, _, h, rfl, rfl⟩⟩
      · rw [Symbol.utf8_of_two h]
        rfl
      · rw [Symbol.utf8_of_three h]
        rfl
      · rw [Symbol.utf8_of_four h]
        rfl

lemma ofSymbols_symbolsFrom (skip : Nat) (t : Text) :
    ofSymbols (symbolsFrom skip t) = t.drop skip := by
  induction t generalizing skip with
  | nil =>
    cases skip <;> rfl
  | cons a rest ih =>
    cases skip with
    | succ skip => exact ih skip
    | zero =>
      rw [symbolsFrom]
      split
      · rename_i ch more hfirst
        rw [ofSymbols, List.flatMap_cons, ← ofSymbols, ih more, List.drop_zero,
          utf8_of_firstChar hfirst]
        rfl
      · rw [ofSymbols, List.flatMap_cons, ← ofSymbols, ih 0]
        rfl

/-- The symbols of a text spell the text. -/
@[simp] lemma ofSymbols_symbols (t : Text) : ofSymbols t.symbols = t :=
  ofSymbols_symbolsFrom 0 t

end Text

end

/-! ### Characters in a text -/

namespace Text

/-- The first byte of a character shows where it starts; the others stand nowhere else. -/
lemma utf8_eq_cons (c : Char) :
    ∃ a rest, String.utf8EncodeChar c = a :: rest ∧ Symbol.isTail a = false ∧
      (0x80 ≤ c.toNat → 0x80 ≤ a) ∧ ∀ b ∈ rest, Symbol.isTail b = true := by
  have hvalid : c.toNat < 0xD800 ∨ 0xDFFF < c.toNat ∧ c.toNat < 0x110000 := c.valid
  rw [Char.toNat] at hvalid ⊢
  unfold String.utf8EncodeChar
  generalize c.val.toNat = n at hvalid ⊢
  dsimp only
  have htail : ∀ m, Symbol.isTail (UInt8.ofNat (m % 64 + 0x80)) = true := by
    intro m
    rw [Symbol.isTail_iff, UInt8.toNat_ofNat']
    omega
  have hhead : ∀ m, m % 256 < 0x80 ∧ n < 0x80 ∨ 0xBF < m % 256 →
      Symbol.isTail (UInt8.ofNat m) = false ∧ (0x80 ≤ n → 0x80 ≤ UInt8.ofNat m) := by
    intro m hm
    have hsize : (0x80 : UInt8).toNat = 0x80 := rfl
    rw [Bool.eq_false_iff, ne_eq, Symbol.isTail_iff, UInt8.le_iff_toNat_le, UInt8.toNat_ofNat',
      hsize]
    omega
  split_ifs with h1 h2 h3
  · obtain ⟨hstart, hhigh⟩ := hhead n (by omega)
    exact ⟨_, _, rfl, hstart, hhigh, List.forall_mem_nil _⟩
  · obtain ⟨hstart, hhigh⟩ := hhead (n / 64 % 32 + 192) (by omega)
    exact ⟨_, _, rfl, hstart, hhigh, List.forall_mem_singleton.mpr (htail _)⟩
  · obtain ⟨hstart, hhigh⟩ := hhead (n / 4096 % 16 + 224) (by omega)
    refine ⟨_, _, rfl, hstart, hhigh, List.forall_mem_cons.mpr ⟨htail _, ?_⟩⟩
    exact List.forall_mem_singleton.mpr (htail _)
  · obtain ⟨hstart, hhigh⟩ := hhead (n / 262144 % 8 + 240) (by omega)
    refine ⟨_, _, rfl, hstart, hhigh, List.forall_mem_cons.mpr ⟨htail _, ?_⟩⟩
    exact List.forall_mem_cons.mpr ⟨htail _, List.forall_mem_singleton.mpr (htail _)⟩

/-- A character is found only where it stands: its bytes do not occur across other characters. -/
lemma mem_of_utf8_infix {c : Char} {cs : List Char}
    (h : String.utf8EncodeChar c <:+: cs.flatMap String.utf8EncodeChar) : c ∈ cs := by
  obtain ⟨before, after, h⟩ := h
  obtain ⟨a, more, hc, ha, -⟩ := utf8_eq_cons c
  induction cs generalizing before with
  | nil => simp [hc] at h
  | cons x cs ih =>
    rw [List.flatMap_cons, List.append_assoc] at h
    cases before with
    | nil =>
      have hsymbols := congrArg symbols h
      rw [List.nil_append, symbols_utf8, symbols_utf8] at hsymbols
      obtain ⟨⟨⟩, -⟩ := List.cons.inj hsymbols
      exact List.mem_cons_self
    | cons b before =>
      -- The first byte of `c` cannot be one of the later bytes of `x`.
      obtain ⟨d, rest, hx, -, -, hrest⟩ := utf8_eq_cons x
      rw [hx, List.cons_append, List.cons_append] at h
      obtain ⟨-, h⟩ := List.cons.inj h
      rcases List.append_eq_append_iff.mp h with ⟨m, hm, hafter⟩ | ⟨m, hm, hafter⟩
      · cases m with
        | nil => exact List.mem_cons_of_mem x (ih [] (by simpa using hafter))
        | cons e m =>
          rw [hc] at hafter
          obtain ⟨rfl, -⟩ := List.cons.inj hafter
          have hmem : a ∈ rest := by simp [hm]
          rw [hrest a hmem] at ha
          cases ha
      · exact List.mem_cons_of_mem x (ih m (by simpa using hafter.symm))

lemma utf8_of_lt {c : Char} (h : c.toNat < 0x80) : String.utf8EncodeChar c = [c.toUInt8] := by
  have hle : c.val.toNat ≤ 0x7F := Nat.le_of_lt_succ h
  rw [String.utf8EncodeChar]
  simp only [hle, if_true]
  rfl

lemma toNat_toUInt8 {c : Char} (h : c.toNat < 0x80) : c.toUInt8.toNat = c.toNat :=
  Nat.mod_eq_of_lt (Nat.lt_trans h (by decide))

lemma le_of_mem_utf8 {c : Char} (h : 0x80 ≤ c.toNat) :
    ∀ b ∈ String.utf8EncodeChar c, 0x80 ≤ b := by
  obtain ⟨a, rest, hc, -, hhigh, hrest⟩ := utf8_eq_cons c
  rw [hc]
  refine List.forall_mem_cons.mpr ⟨hhigh h, fun b hb => ?_⟩
  rw [UInt8.le_iff_toNat_le]
  exact (Symbol.isTail_iff.mp (hrest b hb)).1

/-- A text with the replacement character for each stray byte. -/
def repaired (t : Text) : Text := t.symbols.flatMap fun r => String.utf8EncodeChar r.toChar

lemma repaired_of_isUtf8 {t : Text} (h : t.isUtf8 = true) : t.repaired = t := by
  have hbytes : ∀ r ∈ t.symbols, String.utf8EncodeChar r.toChar = r.bytes := by
    intro r hr
    have hchar := List.all_eq_true.mp h r hr
    cases r with
    | char c => rfl
    | stray b => cases hchar
  rw [repaired, List.flatMap_congr hbytes]
  exact ofSymbols_symbols t

end Text

end SheetFormula
