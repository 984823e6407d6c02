import Mathlib.Algebra.Group.Nat.Defs
import Mathlib.Tactic.Lemma
import Mathlib.Tactic.SplitIfs
import SheetFormula.Proofs.Yaml.Scalar

/-!
# Written scalars

A scalar without line breaks is written without quotes only if it is then read as it is; otherwise
each of its characters is spelled between quotes.
-/

namespace SheetFormula.Yaml

/-! ### Hexadecimal digits -/

/-- The upper-case digit of a number below 16. -/
def hexChar (d : Nat) : Char := Char.ofNat (if d < 10 then d + 48 else d + 55)

/-- The last `width` digits of a number. -/
def hexChars : (width n : Nat) → List Char
  | 0, _ => []
  | width + 1, n => hexChars width (n / 16) ++ [hexChar (n % 16)]

lemma hexChar_spec : ∀ d < 16, (hexChar d).toNat < 128 ∧
    Text.hexValue? (hexChar d).toUInt8 = some d ∧ isAllowed (hexChar d) = true ∧
    upperHex 1 d = String.utf8EncodeChar (hexChar d) := by
  decide

lemma length_hexChars (width n : Nat) : (hexChars width n).length = width := by
  induction width generalizing n with
  | zero => rfl
  | succ width ih => simp [hexChars, ih]

lemma upperHex_eq (width n : Nat) : upperHex width n = ofChars (hexChars width n) := by
  induction width generalizing n with
  | zero => rfl
  | succ width ih =>
    have hdigit := (hexChar_spec (n % 16) (Nat.mod_lt n (by decide))).2.2.2
    have hmod : n % 16 % 16 = n % 16 := Nat.mod_mod n 16
    rw [hexChars, ofChars_append, ← ih]
    simp only [upperHex, Text.hex, List.map_append, hmod, List.nil_append] at hdigit ⊢
    rw [hdigit]
    simp [ofChars]

lemma hexValue_hexChars {width n : Nat} (h : n < 16 ^ width) :
    hexValue? (hexChars width n) = some n := by
  induction width generalizing n with
  | zero =>
    obtain rfl : n = 0 := by simpa using h
    rfl
  | succ width ih =>
    obtain ⟨hascii, hvalue, _⟩ := hexChar_spec (n % 16) (Nat.mod_lt n (by decide))
    have hhigh : n / 16 < 16 ^ width := Nat.div_lt_of_lt_mul (by rwa [Nat.pow_succ'] at h)
    have hrec := ih hhigh
    rw [hexValue?] at hrec ⊢
    rw [hexChars, List.foldlM_append, hrec]
    simp only [List.foldlM_cons, List.foldlM_nil, hascii, if_true, hvalue, Option.map_some]
    exact congrArg some (by omega : n / 16 * 16 + n % 16 = n)

lemma allowed_hexChars (width n : Nat) : ∀ d ∈ hexChars width n, isAllowed d = true := by
  induction width generalizing n with
  | zero => simp [hexChars]
  | succ width ih =>
    intro d hd
    rw [hexChars, List.mem_append, List.mem_singleton] at hd
    rcases hd with hd | rfl
    · exact ih _ d hd
    · exact (hexChar_spec (n % 16) (Nat.mod_lt n (by decide))).2.2.1

/-! ### Characters between quotes -/

section

variable {c : Char}

lemma toNat_valid (c : Char) : c.toNat < 0xD800 ∨ 0xDFFF < c.toNat ∧ c.toNat < 0x110000 := c.valid

/-- A code point that takes more digits takes more bytes. -/
lemma length_utf8 (c : Char) :
    1 ≤ (String.utf8EncodeChar c).length ∧
      (0xFF < c.toNat → 2 ≤ (String.utf8EncodeChar c).length) ∧
      (0xFFFF < c.toNat → 4 ≤ (String.utf8EncodeChar c).length) := by
  rw [Char.toNat, String.utf8EncodeChar]
  split_ifs <;> simp only [List.length_cons, List.length_nil] <;> omega

lemma isAllowed_of_printable (h : isPrintable c = true) : isAllowed c = true := by
  have hvalid := toNat_valid c
  simp only [isPrintable, isAllowed, Bool.or_eq_true, Bool.and_eq_true, decide_eq_true_eq,
    beq_iff_eq, bne_iff_ne] at h ⊢
  omega

/-- A printable character that is no space and ends no line is part of a word. -/
lemma isBlankOrBreak_of_printable (h : isPrintable c = true) (hbreak : isBreak c = false)
    (hspace : c ≠ ' ') : isBlankOrBreak c = false := by
  have htab : c ≠ '\t' := by
    rintro rfl
    exact absurd h (by decide)
  simp [isBlankOrBreak, isBlank, hspace, htab, hbreak]

/-- A character that stands for itself between quotes. -/
lemma spells_self {single : Bool} (h : isPrintable c = true) (hbreak : isBreak c = false)
    (hquote : c ≠ quoteOf single) (hescape : single = false → c ≠ '\\') : Spells single c [c] where
  ne_nil := List.cons_ne_nil _ _
  space hc := congrArg (fun d => [d]) hc
  starts hspace := isBlankOrBreak_of_printable h hbreak hspace
  reads hspace rounds done cur rest hrest := by
    have hword := isBlankOrBreak_of_printable h hbreak hspace
    have hskip : cur.skip = cur.past [c] rest := Cursor.skip_eq hrest
    rw [quotedWord, hrest]
    cases single with
    | false =>
      have hquote' : (c == '"') = false := by simpa [quoteOf] using hquote
      have hescape' : (c == '\\') = false := by simpa using hescape
      simp [hword, hquote', hescape', hskip]
    | true =>
      have hquote' : (c == '\'') = false := by simpa [quoteOf] using hquote
      simp [hword, hquote', hskip]
  short := by
    have hlength := (length_utf8 c).1
    simp only [List.length_singleton]
    omega
  allowed d hd := by
    rw [List.mem_singleton] at hd
    exact hd ▸ isAllowed_of_printable h

/-- A quote between single quotes is written twice. -/
lemma spells_quote : Spells true '\'' ['\'', '\''] where
  ne_nil := List.cons_ne_nil _ _
  space hc := absurd hc (by decide)
  starts _ := rfl
  reads _ rounds done cur rest hrest := by
    have hskip : cur.skipN 2 = cur.past ['\'', '\''] rest := Cursor.skipN_eq hrest
    rw [← hskip, quotedWord, hrest]
    rfl
  short := by decide
  allowed := List.all_eq_true.mp rfl

/-- An escape stands for the character that it is read as. -/
lemma spells_escape {e : Char} {es : List Char} (hspace : c ≠ ' ') (hbreak : isBreak e = false)
    (hread : ∀ rest, escapeAt? (e :: (es ++ rest)) = some (c, es.length + 1))
    (hshort : es.length + 2 ≤ 4 * (String.utf8EncodeChar c).length)
    (hallowed : ∀ d ∈ e :: es, isAllowed d = true) : Spells false c ('\\' :: e :: es) where
  ne_nil := List.cons_ne_nil _ _
  space hc := absurd hc hspace
  starts _ := rfl
  reads _ rounds done cur rest hrest := by
    have hskip : cur.skipN (es.length + 1 + 1) = cur.past ('\\' :: e :: es) rest :=
      Cursor.skipN_eq hrest
    have hplain : isBlankOrBreak '\\' = false := by decide
    rw [← hskip, quotedWord, hrest]
    simp [hplain, hbreak, hread rest]
  short := hshort
  allowed d hd := by
    rcases List.mem_cons.mp hd with rfl | hd
    · rfl
    · exact hallowed d hd

/-- A letter that stands for a character after a backslash. -/
lemma spells_letter {e : Char} {n : Nat} (hc : c.toNat = n) (hspace : Char.ofNat n ≠ ' ')
    (he : escapeChar? e = some (Char.ofNat n)) (hbreak : isBreak e = false)
    (hallowed : isAllowed e = true) : Spells false c ['\\', e] := by
  obtain rfl : Char.ofNat n = c := by rw [← hc, Char.ofNat_toNat]
  refine spells_escape hspace hbreak (fun rest => ?_) ?_ (by simpa using hallowed)
  · rw [escapeAt?, he]
    rfl
  · have hlength := (length_utf8 (Char.ofNat n)).1
    simp only [List.length_nil]
    omega

/-- The digits of a code point stand for its character. -/
lemma spells_digits {e : Char} {width : Nat} (hspace : c ≠ ' ') (he : escapeChar? e = none)
    (hwidth : escapeWidth? e = some width) (hfits : c.toNat < 16 ^ width)
    (hbreak : isBreak e = false) (hallowed : isAllowed e = true)
    (hshort : width + 2 ≤ 4 * (String.utf8EncodeChar c).length) :
    Spells false c ('\\' :: e :: hexChars width c.toNat) := by
  have hlength := length_hexChars width c.toNat
  refine spells_escape hspace hbreak (fun rest => ?_) (by rwa [hlength]) ?_
  · have hvalid := toNat_valid c
    have hbound : ((0xD800 ≤ c.toNat && c.toNat ≤ 0xDFFF) || 0x10FFFF < c.toNat) = false := by
      simp only [Bool.or_eq_false_iff, Bool.and_eq_false_iff, decide_eq_false_iff_not]
      omega
    have hlong : ¬ (hexChars width c.toNat ++ rest).length < width := by simp [hlength]
    have htake : (hexChars width c.toNat ++ rest).take width = hexChars width c.toNat :=
      List.take_left' hlength
    rw [escapeAt?, he]
    simp only [hwidth, Option.bind_eq_bind, Option.bind_some, if_neg hlong, htake,
      hexValue_hexChars hfits, hbound, Bool.false_eq_true, if_false, hlength, Char.ofNat_toNat]
  · intro d hd
    rcases List.mem_cons.mp hd with rfl | hd
    · exact hallowed
    · exact allowed_hexChars _ _ d hd

lemma digits_text (e : Char) (width n : Nat) :
    ofChars ['\\', e] ++ upperHex width n = ofChars ('\\' :: e :: hexChars width n) := by
  rw [upperHex_eq, ← ofChars_append]
  rfl

/-- Every character is spelled between double quotes. -/
lemma exists_escaped (c : Char) : ∃ w, escaped c = ofChars w ∧ Spells false c w := by
  unfold escaped
  split
  · exact ⟨['\\', '0'], rfl, spells_letter ‹_› (by decide) rfl rfl rfl⟩
  · exact ⟨['\\', 'a'], rfl, spells_letter ‹_› (by decide) rfl rfl rfl⟩
  · exact ⟨['\\', 'b'], rfl, spells_letter ‹_› (by decide) rfl rfl rfl⟩
  · exact ⟨['\\', 't'], rfl, spells_letter ‹_› (by decide) rfl rfl rfl⟩
  · exact ⟨['\\', 'n'], rfl, spells_letter ‹_› (by decide) rfl rfl rfl⟩
  · exact ⟨['\\', 'v'], rfl, spells_letter ‹_› (by decide) rfl rfl rfl⟩
  · exact ⟨['\\', 'f'], rfl, spells_letter ‹_› (by decide) rfl rfl rfl⟩
  · exact ⟨['\\', 'r'], rfl, spells_letter ‹_› (by decide) rfl rfl rfl⟩
  · exact ⟨['\\', 'e'], rfl, spells_letter ‹_› (by decide) rfl rfl rfl⟩
  · exact ⟨['\\', '"'], rfl, spells_letter ‹_› (by decide) rfl rfl rfl⟩
  · exact ⟨['\\', '\\'], rfl, spells_letter ‹_› (by decide) rfl rfl rfl⟩
  · exact ⟨['\\', 'N'], rfl, spells_letter ‹_› (by decide) rfl rfl rfl⟩
  · exact ⟨['\\', 'L'], rfl, spells_letter ‹_› (by decide) rfl rfl rfl⟩
  · exact ⟨['\\', 'P'], rfl, spells_letter ‹_› (by decide) rfl rfl rfl⟩
  · have hother : ∀ d : Char, d ∈ ['\n', '\r', '"', '\\'] → c ≠ d := by
      rintro d hd rfl
      simp only [List.mem_cons, List.not_mem_nil, or_false] at hd
      rcases hd with rfl | rfl | rfl | rfl <;> contradiction
    have hbreak : isBreak c = false := by
      simp only [isBreak, Bool.or_eq_false_iff, beq_eq_false_iff_ne]
      exact ⟨⟨⟨⟨hother '\n' (by decide), hother '\r' (by decide)⟩, ‹_›⟩, ‹_›⟩, ‹_›⟩
    by_cases hprintable : isPrintable c = true
    · rw [if_pos hprintable]
      refine ⟨[c], by simp [ofChars], spells_self hprintable hbreak ?_ fun _ => ?_⟩
      · exact hother '"' (by decide)
      · exact hother '\\' (by decide)
    · have hspace : c ≠ ' ' := by
        rintro rfl
        exact hprintable (by decide)
      obtain ⟨hone, htwo, hfour⟩ := length_utf8 c
      rw [if_neg hprintable]
      split_ifs with hbyte hplane
      · refine ⟨'\\' :: 'x' :: hexChars 2 c.toNat, digits_text _ _ _, ?_⟩
        exact spells_digits hspace rfl rfl (by omega) rfl rfl (by omega)
      · refine ⟨'\\' :: 'u' :: hexChars 4 c.toNat, digits_text _ _ _, ?_⟩
        exact spells_digits hspace rfl rfl (by omega) rfl rfl (by omega)
      · have hvalid := toNat_valid c
        refine ⟨'\\' :: 'U' :: hexChars 8 c.toNat, digits_text _ _ _, ?_⟩
        exact spells_digits hspace rfl rfl (by omega) rfl rfl (by omega)

end

lemma length_flatMap_le {spell : Char → List Char} {cs : List Char}
    (h : ∀ c ∈ cs, (spell c).length ≤ 4 * (String.utf8EncodeChar c).length) :
    (cs.flatMap spell).length ≤ 4 * (ofChars cs).length := by
  induction cs with
  | nil => exact Nat.le_refl _
  | cons c cs ih =>
    rw [List.forall_mem_cons] at h
    have hrest := ih h.2
    simp only [ofChars, List.flatMap_cons, List.length_append] at hrest ⊢
    omega

/-! ### Scalars -/

/-- A scalar that is written without quotes. -/
structure Bare (cs : List Char) : Prop extends Unquoted cs where
  printable : ∀ c ∈ cs, isPrintable c = true
  starts : indicates cs = false

/-- The characters that a scalar is written as, and whether these are its own. -/
inductive Written (cs : List Char) : (isPlain : Bool) → List Char → Prop
  | plain : Bare cs → Written cs true cs
  | quoted (single : Bool) (spell : Char → List Char) :
      (∀ c ∈ cs, Spells single c (spell c)) →
      Written cs false (quoteOf single :: cs.flatMap spell ++ [quoteOf single])

section

variable {cs : List Char}

lemma printable_of_singleAllowed (h : singleAllowed cs = true) :
    ∀ c ∈ cs, isPrintable c = true := by
  intro c hc
  simp only [singleAllowed, isSpecial, Bool.not_eq_true', Bool.or_eq_false_iff, List.any_eq_false,
    Bool.and_eq_true, bne_iff_ne, not_and, Bool.not_eq_false] at h
  refine h.2 c hc ?_
  rintro rfl
  simp [hc] at h

/-- What a scalar that is written without quotes does not start with. -/
lemma indicates_cons {c : Char} (h : indicates (c :: cs) = false) :
    ((c :: cs).take 3 ≠ ['-', '-', '-'] ∧ (c :: cs).take 3 ≠ ['.', '.', '.']) ∧
      startsOther c = false ∧ (c = '?' ∨ c = ':' ∨ c = '-' → blankNext cs = false) ∧
      hasIndicator c cs = false := by
  simp only [indicates, Bool.or_eq_false_iff, beq_eq_false_iff_ne] at h
  obtain ⟨⟨⟨hmarks, hother⟩, hblank⟩, hindicator⟩ := h
  refine ⟨hmarks, hother, fun hc => ?_, hindicator⟩
  rcases hc with rfl | rfl | rfl <;> simpa using hblank

lemma bare_of_plainAllowed (hbreaks : ∀ c ∈ cs, isBreak c = false) (hne : cs ≠ [])
    (h : plainAllowed cs = true) : Bare cs := by
  simp only [plainAllowed, Bool.and_eq_true, Bool.not_eq_true'] at h
  obtain ⟨⟨⟨⟨hsingle, _⟩, hhead⟩, hlast⟩, hstarts⟩ := h
  have hprintable := printable_of_singleAllowed hsingle
  obtain ⟨c, cs, rfl⟩ := List.exists_cons_of_ne_nil hne
  obtain ⟨_, hother, hblank, hindicator⟩ := indicates_cons hstarts
  refine ⟨⟨hne, ?_, ?_, ?_, ?_, 'a', ?_⟩, hprintable, hstarts⟩
  · intro hspace
    rw [hspace] at hhead
    exact absurd hhead (by decide)
  · intro hspace
    rw [hspace] at hlast
    exact absurd hlast (by decide)
  · rintro ⟨⟩
    exact absurd hother (by decide)
  · exact fun d hd => isBlankOrBreak_of_printable (hprintable d hd) (hbreaks d hd)
  · have hcolon : (c == ':' && blankNext cs) = false := by
      by_cases hc : c = ':'
      · rw [hblank (.inr (.inl hc)), Bool.and_false]
      · simp [hc]
    rw [hasIndicator, hcolon, hindicator]
    simp [isBlankOrBreak, isBlank, isBreak]

/-- How a character is written between single quotes. -/
def doubled (c : Char) : List Char := if c = '\'' then ['\'', '\''] else [c]

lemma spells_doubled {c : Char} (h : isPrintable c = true) (hbreak : isBreak c = false) :
    Spells true c (doubled c) := by
  unfold doubled
  split_ifs with hc
  · exact hc ▸ spells_quote
  · exact spells_self h hbreak hc (by simp)

lemma ofChars_doubled (c : Char) :
    ofChars (doubled c) = Text.when (c == '\'') "'" ++ String.utf8EncodeChar c := by
  unfold doubled
  split_ifs with hc
  · subst hc
    rfl
  · simp [hc, Text.when, ofChars]

lemma singleBody_eq (hbreaks : ∀ c ∈ cs, isBreak c = false) :
    singleBody false cs = ofChars (cs.flatMap doubled) := by
  induction cs with
  | nil => rfl
  | cons c cs ih =>
    rw [List.forall_mem_cons] at hbreaks
    have hc : ¬ isBreak c = true := by simp [hbreaks.1]
    rw [singleBody, if_neg hc, ih hbreaks.2, List.flatMap_cons, ofChars_append, ofChars_doubled]
    rfl

/-- The ways to write a scalar without line breaks. -/
lemma style_cases (hbreaks : ∀ c ∈ cs, isBreak c = false) :
    (style cs = .plain ∧ Bare cs) ∨ (style cs = .singleQuoted ∧ singleAllowed cs = true) ∨
      style cs = .doubleQuoted := by
  have hline : ¬ cs.contains '\n' = true := by
    rw [List.contains_iff_mem]
    intro hmem
    exact absurd (hbreaks _ hmem) (by decide)
  rw [style, if_neg hline]
  split_ifs with htag hplain hsingle
  · exact .inr (.inr rfl)
  · have hne : cs ≠ [] := by
      rintro rfl
      exact htag (by decide)
    exact .inl ⟨rfl, bare_of_plainAllowed hbreaks hne hplain⟩
  · exact .inr (.inl ⟨rfl, hsingle⟩)
  · exact .inr (.inr rfl)

/-- A scalar without line breaks is written so that it can be read. -/
lemma exists_written (hbreaks : ∀ c ∈ cs, isBreak c = false) :
    ∃ ws, scalar cs = ofChars ws ∧ Written cs (style cs == .plain) ws := by
  rw [scalar]
  rcases style_cases hbreaks with ⟨hstyle, hbare⟩ | ⟨hstyle, hsingle⟩ | hstyle
  · rw [hstyle]
    exact ⟨cs, rfl, .plain hbare⟩
  · rw [hstyle]
    have hprintable := printable_of_singleAllowed hsingle
    refine ⟨_, ?_, .quoted true doubled fun c hc => spells_doubled (hprintable c hc) (hbreaks c hc)⟩
    simp only [singleQuoted, singleBody_eq hbreaks, ofChars_append]
    rfl
  · rw [hstyle]
    obtain ⟨spell, hspell⟩ := Classical.axiomOfChoice exists_escaped
    refine ⟨_, ?_, .quoted false spell fun c _ => (hspell c).2⟩
    have hbody : cs.flatMap escaped = ofChars (cs.flatMap spell) := by
      rw [ofChars, List.flatMap_assoc]
      exact List.flatMap_congr fun c _ => (hspell c).1
    simp only [doubleQuoted, hbody, ofChars_append]
    rfl

/-- Characters that start a token: they are not skipped, and no comment, directive or byte order
mark starts with them. -/
structure Starts (c : Char) : Prop where
  word : isBlankOrBreak c = false
  comment : c ≠ '#'
  directive : c ≠ '%'
  mark : c.toNat ≠ 0xFEFF

lemma Starts.isBlank_eq_false {c : Char} (h : Starts c) : isBlank c = false :=
  (Bool.or_eq_false_iff.mp h.word).1

lemma Starts.isBreak_eq_false {c : Char} (h : Starts c) : isBreak c = false :=
  (Bool.or_eq_false_iff.mp h.word).2

section

variable {isPlain : Bool} {ws : List Char}

lemma Written.starts (h : Written cs isPlain ws) : ∃ c rest, ws = c :: rest ∧ Starts c := by
  cases h with
  | plain h =>
    obtain ⟨c, cs, rfl⟩ := List.exists_cons_of_ne_nil h.ne_nil
    have hother := (indicates_cons h.starts).2.1
    have hprintable := h.printable c List.mem_cons_self
    have hspace : c ≠ ' ' := fun hc => h.head (congrArg some hc)
    refine ⟨c, cs, rfl, h.chars c List.mem_cons_self hspace, ?_, ?_, ?_⟩
    · rintro rfl
      exact absurd hother (by decide)
    · rintro rfl
      exact absurd hother (by decide)
    · intro hmark
      simp [isPrintable, hmark] at hprintable
  | quoted single spell hspell =>
    refine ⟨quoteOf single, _, rfl, ?_⟩
    cases single <;> exact ⟨by decide, by decide, by decide, by decide⟩

lemma Written.allowed (h : Written cs isPlain ws) : ∀ d ∈ ws, isAllowed d = true := by
  cases h with
  | plain h => exact fun d hd => isAllowed_of_printable (h.printable d hd)
  | quoted single spell hspell =>
    have hquote : isAllowed (quoteOf single) = true := by cases single <;> rfl
    intro d hd
    simp only [List.cons_append, List.mem_cons, List.mem_append, List.mem_flatMap,
      List.not_mem_nil, or_false] at hd
    rcases hd with rfl | ⟨c, hc, hd⟩ | rfl
    · exact hquote
    · exact (hspell c hc).allowed d hd
    · exact hquote

/-- A scalar of few bytes is written with few characters. -/
lemma Written.length_le (h : Written cs isPlain ws) : ws.length ≤ 4 * (ofChars cs).length + 2 := by
  cases h with
  | plain h =>
    have hself : (cs.flatMap fun c => [c]).length ≤ 4 * (ofChars cs).length := by
      refine length_flatMap_le fun c _ => ?_
      have hlength := (length_utf8 c).1
      simp only [List.length_singleton]
      omega
    rw [List.flatMap_singleton'] at hself
    omega
  | quoted single spell hspell =>
    have hbody := length_flatMap_le fun c hc => (hspell c hc).short
    simp only [List.cons_append, List.length_cons, List.length_append, List.length_nil]
    omega

end

end

/-! ### Pairs -/

/-- The lines that a pair is written as: a short key stands before its colon, a long one has an
indicator and a line of its own. -/
inductive WrittenPair (key value : List Char) : List Char → Prop
  | short {k v : List Char} : Written key (style key == .plain) k → k.length ≤ 1024 →
      Written value (style value == .plain) v →
      WrittenPair key value (k ++ ':' :: ' ' :: (v ++ ['\n']))
  | long {k v : List Char} : Written key (style key == .plain) k →
      Written value (style value == .plain) v →
      WrittenPair key value ('?' :: ' ' :: (k ++ '\n' :: ':' :: ' ' :: (v ++ ['\n'])))

/-- The text of a block mapping, pair by pair. -/
inductive WrittenPairs : List (List Char × List Char) → List Char → Prop
  | nil : WrittenPairs [] []
  | cons {key value text : List Char} {pairs : List (List Char × List Char)} {more : List Char} :
      WrittenPair key value text → WrittenPairs pairs more →
      WrittenPairs ((key, value) :: pairs) (text ++ more)

lemma WrittenPair.allowed {key value text : List Char} (h : WrittenPair key value text) :
    ∀ c ∈ text, isAllowed c = true := by
  intro c hc
  cases h with
  | short hkey _ hvalue =>
    simp only [List.mem_append, List.mem_cons, List.not_mem_nil, or_false] at hc
    rcases hc with hc | rfl | rfl | hc | rfl
    · exact hkey.allowed c hc
    · rfl
    · rfl
    · exact hvalue.allowed c hc
    · rfl
  | long hkey hvalue =>
    simp only [List.mem_append, List.mem_cons, List.not_mem_nil, or_false] at hc
    rcases hc with rfl | rfl | hc | rfl | rfl | rfl | hc | rfl
    · rfl
    · rfl
    · exact hkey.allowed c hc
    · rfl
    · rfl
    · rfl
    · exact hvalue.allowed c hc
    · rfl

lemma WrittenPairs.allowed {pairs : List (List Char × List Char)} {text : List Char}
    (h : WrittenPairs pairs text) : ∀ c ∈ text, isAllowed c = true := by
  induction h with
  | nil => simp
  | cons hpair _ ih =>
    intro c hc
    rcases List.mem_append.mp hc with hc | hc
    · exact hpair.allowed c hc
    · exact ih c hc

/-- A list of pairs without line breaks. -/
def OnLines (pairs : List (List Char × List Char)) : Prop :=
  ∀ p ∈ pairs, (∀ c ∈ p.1, isBreak c = false) ∧ ∀ c ∈ p.2, isBreak c = false

section

variable {key value : List Char}

lemma scalarLine_eq (hbreaks : ∀ c ∈ value, isBreak c = false) :
    scalarLine value = scalar value ++ ofChars ['\n'] := by
  have hends : endsLine value = false := by
    rcases style_cases hbreaks with ⟨hstyle, _⟩ | ⟨hstyle, _⟩ | hstyle <;> simp [endsLine, hstyle]
  rw [scalarLine, hends]
  rfl

lemma exists_writtenPair (hkey : ∀ c ∈ key, isBreak c = false)
    (hvalue : ∀ c ∈ value, isBreak c = false) :
    ∃ text, pair key value = ofChars text ∧ WrittenPair key value text := by
  obtain ⟨k, hk, hwk⟩ := exists_written hkey
  obtain ⟨v, hv, hwv⟩ := exists_written hvalue
  rw [pair, scalarLine_eq hkey, scalarLine_eq hvalue, hk, hv]
  split_ifs with hshort
  · have hlength : k.length ≤ 1024 := by
      have hle := hwk.length_le
      simp only [isShortKey, Bool.and_eq_true, decide_eq_true_eq] at hshort
      omega
    refine ⟨_, ?_, .short hwk hlength hwv⟩
    change _ = ofChars (k ++ ([':', ' '] ++ (v ++ ['\n'])))
    simp only [ofChars_append, List.append_assoc]
    rfl
  · refine ⟨_, ?_, .long hwk hwv⟩
    change _ = ofChars (['?', ' '] ++ (k ++ (['\n'] ++ ([':', ' '] ++ (v ++ ['\n'])))))
    simp only [ofChars_append, List.append_assoc]
    rfl

end

lemma exists_writtenPairs {pairs : List (List Char × List Char)} (h : OnLines pairs) :
    ∃ text, pairs.flatMap (fun p => pair p.1 p.2) = ofChars text ∧ WrittenPairs pairs text := by
  induction pairs with
  | nil => exact ⟨[], rfl, .nil⟩
  | cons p pairs ih =>
    obtain ⟨hp, hpairs⟩ := List.forall_mem_cons.mp h
    obtain ⟨text, htext, hwritten⟩ := ih hpairs
    obtain ⟨line, hline, hpair⟩ := exists_writtenPair hp.1 hp.2
    refine ⟨line ++ text, ?_, .cons hpair hwritten⟩
    rw [List.flatMap_cons, hline, htext, ofChars_append]

/-- A mapping whose keys and values have no line breaks is written pair by pair. -/
lemma mapping_written {pairs : List (List Char × List Char)} (hne : pairs ≠ [])
    (h : OnLines pairs) :
    ∃ text, mapping? (pairs.map fun p => (ofChars p.1, ofChars p.2)) = some (ofChars text) ∧
      WrittenPairs pairs text := by
  obtain ⟨text, htext, hwritten⟩ := exists_writtenPairs h
  refine ⟨text, ?_, hwritten⟩
  have hparts : pairs.mapM (fun p => some (pair p.1 p.2)) =
      some (pairs.map fun p => pair p.1 p.2) := List.mapM_pure
  rw [mapping?, if_neg (by simpa using hne), List.mapM_map]
  simp only [Function.comp_def, ofUtf8_ofChars, Option.bind_eq_bind, Option.bind_some,
    Option.pure_def, hparts]
  rw [← htext, List.flatMap_def]

end SheetFormula.Yaml
