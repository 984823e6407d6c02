import SheetFormula.Json.Writer
import SheetFormula.Proofs.Json.Number
import SheetFormula.Proofs.Json.RoundTrip
import SheetFormula.Proofs.Text.Symbol

/-!
# Strings that are safe in a line

The style for reports writes a text with harmless characters only: none of them ends a line, and
none means anything on a web page. Read back, the text has the replacement character for each byte
that is part of no character.
-/

namespace SheetFormula.Json

/-! ### Harmless texts -/

/-- Whether a character neither ends a line nor means anything on a web page. -/
def isHarmless (c : Char) : Bool :=
  0x20 ≤ c.toNat && !(['<', '>', '&', '\u2028', '\u2029'].contains c)

def Harmless (t : Text) : Prop :=
  ∃ cs : List Char, t = cs.flatMap String.utf8EncodeChar ∧ ∀ c ∈ cs, isHarmless c = true

def isHarmlessByte (b : UInt8) : Bool := b < 0x80 && isHarmless (Char.ofNat b.toNat)

lemma harmless_of_bytes {t : Text} (h : t.all isHarmlessByte = true) : Harmless t := by
  rw [List.all_eq_true] at h
  refine ⟨t.map fun b => Char.ofNat b.toNat, ?_, ?_⟩
  · have hbytes : ∀ b ∈ t, String.utf8EncodeChar (Char.ofNat b.toNat) = [b] := fun b hb =>
      Symbol.utf8_of_ascii (of_decide_eq_true (Bool.and_eq_true_iff.mp (h b hb)).1)
    rw [List.flatMap_map, List.flatMap_congr hbytes, List.flatMap_singleton']
  · rintro _ hc
    obtain ⟨b, hb, rfl⟩ := List.mem_map.mp hc
    exact (Bool.and_eq_true_iff.mp (h b hb)).2

namespace Harmless

variable {t u : Text}

lemma nil : Harmless [] := ⟨[], rfl, List.forall_mem_nil _⟩

lemma append (ht : Harmless t) (hu : Harmless u) : Harmless (t ++ u) := by
  obtain ⟨cs, rfl, hcs⟩ := ht
  obtain ⟨ds, rfl, hds⟩ := hu
  exact ⟨cs ++ ds, List.flatMap_append.symm, List.forall_mem_append.mpr ⟨hcs, hds⟩⟩

lemma flatMap {α : Type} {f : α → Text} {xs : List α} (h : ∀ x ∈ xs, Harmless (f x)) :
    Harmless (xs.flatMap f) := by
  induction xs with
  | nil => exact .nil
  | cons x xs ih =>
    obtain ⟨hx, hxs⟩ := List.forall_mem_cons.mp h
    exact hx.append (ih hxs)

lemma join {ts : List Text} (h : ∀ t ∈ ts, Harmless t) : Harmless (Text.join "," ts) := by
  cases ts with
  | nil => exact .nil
  | cons t ts =>
    obtain ⟨ht, hts⟩ := List.forall_mem_cons.mp h
    rw [Text.join_cons]
    refine ht.append (.flatMap fun u hu => ?_)
    exact (harmless_of_bytes rfl).append (hts u hu)

/-- A harmless text has no control characters and no bytes of markup. -/
lemma bytes (h : Harmless t) : ∀ b ∈ t, 0x20 ≤ b ∧ b ≠ '<' ∧ b ≠ '>' ∧ b ≠ '&' := by
  obtain ⟨cs, rfl, hcs⟩ := h
  intro b hb
  obtain ⟨c, hc, hb⟩ := List.mem_flatMap.mp hb
  have hharmless := hcs c hc
  rcases Nat.lt_or_ge c.toNat 0x80 with hlow | hhigh
  · rw [Text.utf8_of_lt hlow, List.mem_singleton] at hb
    subst hb
    have hother : ∀ x : Char, x.toNat < 0x80 → isHarmless x = false → (c : UInt8) ≠ x := by
      intro x hx hbad hcx
      have hnat : c.toNat = x.toNat := by
        rw [← Text.toNat_toUInt8 hlow, hcx, Text.toNat_toUInt8 hx]
      rw [Char.toNat_inj.mp hnat, hbad] at hharmless
      cases hharmless
    refine ⟨?_, hother '<' (by decide) rfl, hother '>' (by decide) rfl, hother '&' (by decide) rfl⟩
    rw [UInt8.le_iff_toNat_le, Text.toNat_toUInt8 hlow]
    exact of_decide_eq_true (Bool.and_eq_true_iff.mp hharmless).1
  · have hle : 0x80 ≤ b.toNat := UInt8.le_iff_toNat_le.mp (Text.le_of_mem_utf8 hhigh b hb)
    have hother : ∀ x : Char, x.toNat < 0x80 → b ≠ x := by
      rintro x hx rfl
      rw [Text.toNat_toUInt8 hx] at hle
      omega
    refine ⟨?_, hother '<' (by decide), hother '>' (by decide), hother '&' (by decide)⟩
    rw [UInt8.le_iff_toNat_le]
    exact Nat.le_trans (by decide) hle

/-- The separators of lines and paragraphs do not occur in a harmless text. -/
lemma not_infix (h : Harmless t) {c : Char} (hc : isHarmless c = false) :
    ¬ String.utf8EncodeChar c <:+: t := by
  obtain ⟨cs, rfl, hcs⟩ := h
  intro hinfix
  rw [hcs c (Text.mem_of_utf8_infix hinfix)] at hc
  cases hc

end Harmless

/-! ### Strings -/

lemma isHarmlessByte_of_isNumberByte :
    ∀ n < 256, isNumberByte n.toUInt8 = true → isHarmlessByte n.toUInt8 = true := by
  decide +kernel

lemma harmless_ofInt (n : Int) : Harmless (Text.ofInt n) := by
  refine harmless_of_bytes (List.all_eq_true.mpr fun b hb => ?_)
  have hharmless := isHarmlessByte_of_isNumberByte b.toNat b.toNat_lt
  rw [Nat.toUInt8, UInt8.ofNat_toNat] at hharmless
  exact hharmless (isNumberByte_of_mem_ofInt hb)

lemma reads_unit {digits : Text} {n : Nat} (hlength : digits.length = 4)
    (hunit : ∀ rest, unit? (digits ++ rest) = some n) (hsingle : isSurrogate n = false) :
    Reads ("\\u" ++ digits) (unitBytes n) := by
  refine reads_escape (e := ('u' : UInt8) :: digits) fun rest => ?_
  rw [List.length_cons, hlength]
  exact escape_unit (hunit rest) hsingle

lemma isHarmlessByte_safeSymbol :
    ∀ n < 128, (safeSymbol (.char (Char.ofNat n))).all isHarmlessByte = true := by
  decide +kernel

lemma safeSymbol_of_lt {c : Char} (h : c.toNat < 0x80) :
    Harmless (safeSymbol (.char c)) ∧ Reads (safeSymbol (.char c)) (String.utf8EncodeChar c) := by
  constructor
  · have hbytes := isHarmlessByte_safeSymbol c.toNat h
    rw [Char.ofNat_toNat] at hbytes
    exact harmless_of_bytes hbytes
  · have hbyte : (c : UInt8) < 0x80 := by
      rw [UInt8.lt_iff_toNat_lt, Text.toNat_toUInt8 h]
      exact h
    rw [Text.utf8_of_lt h, safeSymbol, if_pos h]
    dsimp only
    split_ifs with hescape
    · exact reads_escapeByte hbyte
    · refine reads_self (List.forall_mem_singleton.mpr (Bool.eq_false_iff.mpr fun hneeds => ?_))
      exact hescape (by simp [hneeds])

lemma safeSymbol_of_le {c : Char} (h : 0x80 ≤ c.toNat) :
    Harmless (safeSymbol (.char c)) ∧ Reads (safeSymbol (.char c)) (String.utf8EncodeChar c) := by
  rw [safeSymbol, if_neg (Nat.not_lt.mpr h)]
  split_ifs with hline hparagraph
  · obtain rfl : c = '\u2028' := Char.toNat_inj.mp hline
    exact ⟨harmless_of_bytes rfl, reads_unit (n := 0x2028) rfl (fun _ => rfl) rfl⟩
  · obtain rfl : c = '\u2029' := Char.toNat_inj.mp hparagraph
    exact ⟨harmless_of_bytes rfl, reads_unit (n := 0x2029) rfl (fun _ => rfl) rfl⟩
  · have hother : c ∉ ['<', '>', '&', '\u2028', '\u2029'] := by
      intro hc
      simp only [List.mem_cons, List.not_mem_nil, or_false] at hc
      rcases hc with rfl | rfl | rfl | rfl | rfl
      · exact absurd h (by decide)
      · exact absurd h (by decide)
      · exact absurd h (by decide)
      · exact hline rfl
      · exact hparagraph rfl
    have hharmless : isHarmless c = true := by
      rw [isHarmless, List.contains_eq_mem, decide_eq_false hother]
      exact Bool.and_eq_true_iff.mpr ⟨decide_eq_true (Nat.le_trans (by decide) h), rfl⟩
    refine ⟨⟨[c], by simp, List.forall_mem_singleton.mpr hharmless⟩, reads_self fun b hb => ?_⟩
    refine Bool.eq_false_iff.mpr fun hneeds => ?_
    exact absurd (lt_of_needsEscape hneeds) (UInt8.not_lt.mpr (Text.le_of_mem_utf8 h b hb))

/-- A symbol is written harmlessly and read back, a stray byte as the replacement character. -/
lemma safeSymbol_spec (r : Symbol) :
    Harmless (safeSymbol r) ∧ Reads (safeSymbol r) (String.utf8EncodeChar r.toChar) := by
  cases r with
  | stray b =>
    have hharmless : Harmless "\\ufffd" := harmless_of_bytes rfl
    exact ⟨hharmless, reads_unit (n := 0xFFFD) rfl (fun _ => rfl) rfl⟩
  | char c =>
    rcases Nat.lt_or_ge c.toNat 0x80 with hlow | hhigh
    · exact safeSymbol_of_lt hlow
    · exact safeSymbol_of_le hhigh

lemma quotes_safe (t : Text) : Quotes (safe t) t.repaired :=
  quotes_flatMap fun r _ => (safeSymbol_spec r).2

lemma harmless_safe (t : Text) : Harmless (safe t) := by
  have hquote : Harmless "\"" := harmless_of_bytes rfl
  exact (hquote.append (.flatMap fun r _ => (safeSymbol_spec r).1)).append hquote

end SheetFormula.Json
