import Mathlib.Data.List.Basic
import Mathlib.Tactic.Lemma
import SheetFormula.Proofs.Yaml.Stream
import SheetFormula.Yaml.Scalar
import SheetFormula.Yaml.Writer

/-!
# Scalars on one line

A scalar on one line is read word by word. The blanks between two words are a gap that is kept as it
is, both between quotes and without them.
-/

namespace SheetFormula.Yaml

/-! ### Words and gaps -/

/-- A scalar is a word, a gap, and what does not start with a space; without a gap the word is
all. -/
lemma exists_word_gap (cs : List Char) :
    ∃ word gap tail, cs = word ++ (List.replicate gap ' ' ++ tail) ∧ ' ' ∉ word ∧
      tail.head? ≠ some ' ' ∧ (gap = 0 → tail = []) := by
  induction cs with
  | nil => exact ⟨[], 0, [], rfl, by simp, by simp, fun _ => rfl⟩
  | cons c cs ih =>
    obtain ⟨word, gap, tail, rfl, hword, htail, hgap⟩ := ih
    by_cases hc : c = ' '
    · subst hc
      cases word with
      | nil => exact ⟨[], gap + 1, tail, rfl, by simp, htail, by simp⟩
      | cons d word =>
        refine ⟨[], 1, d :: word ++ (List.replicate gap ' ' ++ tail), rfl, by simp, ?_, by simp⟩
        rintro ⟨⟩
        exact hword List.mem_cons_self
    · refine ⟨c :: word, gap, tail, rfl, ?_, htail, hgap⟩
      rw [List.mem_cons, not_or]
      exact ⟨Ne.symm hc, hword⟩

/-- A gap ends where no blank is. -/
lemma gapFrom_stop {indent rounds : Nat} {g : Gap} {c : Cursor}
    (hstop : c.rest.head?.any isBlankOrBreak = false) :
    gapFrom indent rounds g c = some (g, c) := by
  cases rounds with
  | zero => rfl
  | succ rounds =>
    cases hrest : c.rest with
    | nil => simp [gapFrom, Cursor.peek?, hrest]
    | cons ch rest =>
      have hch : isBlank ch = false ∧ isBreak ch = false := by
        simpa [hrest, isBlankOrBreak] using hstop
      simp [gapFrom, Cursor.peek?, hrest, hch]

lemma gapFrom_spaces {indent rounds n : Nat} {before : List Char} {c : Cursor} {rest : List Char}
    (hrest : c.rest = List.replicate n ' ' ++ rest)
    (hstop : rest.head?.any isBlankOrBreak = false) (hrounds : n ≤ rounds) :
    gapFrom indent rounds { spaces := before } c =
      some ({ spaces := before ++ List.replicate n ' ' }, c.past (List.replicate n ' ') rest) := by
  induction n generalizing rounds before c with
  | zero =>
    rw [List.replicate_zero, List.nil_append] at hrest
    rw [List.replicate_zero, Cursor.past_nil hrest, List.append_nil]
    exact gapFrom_stop (hrest ▸ hstop)
  | succ n ih =>
    obtain ⟨rounds, rfl⟩ : ∃ m, rounds = m + 1 := ⟨rounds - 1, by omega⟩
    have hskip : c.skip = c.past [' '] (List.replicate n ' ' ++ rest) := Cursor.skip_eq hrest
    have hpeek : c.peek? = some ' ' := by simp [Cursor.peek?, hrest, List.replicate_succ]
    have hround : gapFrom indent (rounds + 1) { spaces := before } c =
        gapFrom indent rounds { spaces := before ++ [' '] } c.skip := by
      simp only [gapFrom, hpeek]
      rfl
    rw [hround, hskip, ih rfl (by omega), Cursor.past_past, List.append_assoc,
      List.singleton_append, ← List.replicate_succ]

/-- A gap of spaces is kept. -/
lemma gap_spaces {indent n : Nat} {c : Cursor} {rest : List Char}
    (hrest : c.rest = List.replicate n ' ' ++ rest)
    (hstop : rest.head?.any isBlankOrBreak = false) :
    gap? indent {} c =
      some ({ spaces := List.replicate n ' ' }, c.past (List.replicate n ' ') rest) :=
  gapFrom_spaces hrest hstop (by simp [hrest])

/-! ### Quoted scalars -/

/-- The quotes around a scalar. -/
def quoteOf (single : Bool) : Char := if single then '\'' else '"'

/-- The characters that stand for one character between quotes: a space for itself, and others so
that they are read as part of a word. -/
structure Spells (single : Bool) (c : Char) (w : List Char) : Prop where
  ne_nil : w ≠ []
  space : c = ' ' → w = [' ']
  starts : c ≠ ' ' → w.head?.any isBlankOrBreak = false
  reads : c ≠ ' ' → ∀ rounds done (cur : Cursor) rest, cur.rest = w ++ rest →
    quotedWord single (rounds + 1) done cur = quotedWord single rounds (c :: done) (cur.past w rest)
  short : w.length ≤ 4 * (String.utf8EncodeChar c).length
  allowed : ∀ d ∈ w, isAllowed d = true

section

variable {single : Bool} {spell : Char → List Char} {cs word done rest : List Char} {cur : Cursor}

lemma length_le_spelled (hspell : ∀ c ∈ cs, Spells single c (spell c)) :
    cs.length ≤ (cs.flatMap spell).length := by
  induction cs with
  | nil => exact Nat.le_refl _
  | cons c cs ih =>
    have hc := List.length_pos_iff.mpr (hspell c List.mem_cons_self).ne_nil
    have hcs := ih fun d hd => hspell d (List.mem_cons_of_mem _ hd)
    rw [List.flatMap_cons, List.length_append, List.length_cons]
    omega

lemma quotedWord_spelled (hspell : ∀ c ∈ word, Spells single c (spell c)) (hword : ' ' ∉ word)
    (rounds : Nat) (hrest : cur.rest = word.flatMap spell ++ rest) :
    quotedWord single (rounds + word.length) done cur =
      quotedWord single rounds (word.reverse ++ done) (cur.past (word.flatMap spell) rest) := by
  induction word generalizing done cur with
  | nil => rw [List.flatMap_nil, Cursor.past_nil (by exact hrest)]; rfl
  | cons c word ih =>
    rw [List.mem_cons, not_or] at hword
    rw [List.flatMap_cons, List.append_assoc] at hrest
    rw [List.length_cons, ← Nat.add_assoc,
      (hspell c List.mem_cons_self).reads (Ne.symm hword.1) _ _ _ _ hrest,
      ih (fun d hd => hspell d (List.mem_cons_of_mem _ hd)) hword.2 rfl, Cursor.past_past,
      List.reverse_cons, List.append_assoc]
    rfl

/-- A word ends at a space and at the closing quote. -/
lemma quotedWord_stop (rounds : Nat)
    (h : cur.rest.head? = some ' ' ∨
      ∃ rest, cur.rest = quoteOf single :: rest ∧ rest.head? ≠ some '\'') :
    quotedWord single rounds done cur = some (done.reverse, false, cur) := by
  cases rounds with
  | zero => rfl
  | succ rounds =>
    rcases h with hspace | ⟨rest, hclose, hnext⟩
    · obtain ⟨rest, hrest⟩ : ∃ rest, cur.rest = ' ' :: rest := List.head?_eq_some_iff.mp hspace
      simp only [quotedWord, hrest]
      rfl
    · simp only [quotedWord, hclose]
      cases single with
      | false => rfl
      | true =>
        have hnext' : (rest.head? == some '\'') = false := by simpa using hnext
        simp [quoteOf, hnext', isBlankOrBreak, isBlank, isBreak]

/-- A word is read up to the space or the closing quote behind it. -/
lemma quotedWord_of_rest (hspell : ∀ c ∈ word, Spells single c (spell c)) (hword : ' ' ∉ word)
    (hrest : cur.rest = word.flatMap spell ++ rest)
    (hstop : rest.head? = some ' ' ∨
      ∃ more, rest = quoteOf single :: more ∧ more.head? ≠ some '\'') :
    quotedWord single cur.rest.length [] cur =
      some (word, false, cur.past (word.flatMap spell) rest) := by
  have hlength : word.length ≤ cur.rest.length := by
    have hle := length_le_spelled hspell
    rw [hrest, List.length_append]
    omega
  obtain ⟨rounds, hrounds⟩ := Nat.exists_eq_add_of_le' hlength
  rw [hrounds, quotedWord_spelled hspell hword rounds hrest, quotedWord_stop rounds hstop,
    List.append_nil, List.reverse_reverse]

/-- What does not start with a space is not spelled with a blank at its start. -/
lemma starts_spelled (hspell : ∀ c ∈ cs, Spells single c (spell c)) (hcs : cs.head? ≠ some ' ') :
    (cs.flatMap spell ++ quoteOf single :: rest).head?.any isBlankOrBreak = false := by
  cases cs with
  | nil => cases single <;> rfl
  | cons c cs =>
    have hc := hspell c List.mem_cons_self
    have hstarts := hc.starts fun h => hcs (congrArg some h)
    obtain ⟨d, w, hw⟩ := List.exists_cons_of_ne_nil hc.ne_nil
    rw [hw] at hstarts
    rw [List.flatMap_cons, hw]
    exact hstarts

/-- A scalar between quotes is read up to its closing quote. -/
lemma quotedFrom_spelled (hspell : ∀ c ∈ cs, Spells single c (spell c)) {rounds : Nat}
    (hrounds : cs.length < rounds) (hcolumn : cur.column ≠ 0)
    (hrest : cur.rest = cs.flatMap spell ++ quoteOf single :: rest)
    (hnext : rest.head? ≠ some '\'') :
    quotedFrom single rounds done cur =
      some (done ++ cs, cur.past (cs.flatMap spell ++ [quoteOf single]) rest) := by
  induction rounds generalizing cs done cur with
  | zero => omega
  | succ rounds ih =>
    obtain ⟨word, gap, tail, rfl, hword, htail, hgap⟩ := exists_word_gap cs
    have hspellWord : ∀ c ∈ word, Spells single c (spell c) := fun c hc =>
      hspell c (List.mem_append_left _ hc)
    have hopen : (cur.documentIndicator || cur.rest.isEmpty) = false := by
      simp [Cursor.documentIndicator_of_column hcolumn, hrest]
    rw [quotedFrom, hopen]
    simp only [Bool.false_eq_true, if_false]
    cases gap with
    | zero =>
      obtain rfl := hgap rfl
      simp only [List.replicate_zero, List.append_nil] at hrest ⊢
      rw [quotedWord_of_rest hspellWord hword hrest (.inr ⟨rest, rfl, hnext⟩)]
      have hclose : (cur.past (word.flatMap spell) (quoteOf single :: rest)).atChar
          (if single then '\'' else '"') = true := by
        simp [Cursor.atChar, Cursor.peek?, quoteOf]
      simp only [hclose, if_true]
      rw [Cursor.skip_eq rfl, Cursor.past_past]
    | succ gap =>
      have hspace : spell ' ' = [' '] := (hspell ' ' (by simp)).space rfl
      have hgap : (List.replicate (gap + 1) ' ').flatMap spell = List.replicate (gap + 1) ' ' := by
        rw [List.flatMap_replicate, hspace, List.flatten_replicate_singleton]
      have hspellTail : ∀ c ∈ tail, Spells single c (spell c) := fun c hc => hspell c (by simp [hc])
      simp only [List.flatMap_append, hgap, List.append_assoc] at hrest ⊢
      rw [quotedWord_of_rest hspellWord hword hrest (.inl rfl)]
      have hclose : (cur.past (word.flatMap spell) (List.replicate (gap + 1) ' ' ++
          (tail.flatMap spell ++ quoteOf single :: rest))).atChar (if single then '\'' else '"') =
            false := by
        cases single <;> simp [Cursor.atChar, Cursor.peek?, List.replicate_succ]
      simp only [hclose, Bool.false_eq_true, if_false]
      rw [gap_spaces rfl (starts_spelled hspellTail htail)]
      have htext : ({ spaces := List.replicate (gap + 1) ' ' } : Gap).text =
          List.replicate (gap + 1) ' ' := rfl
      simp only [htext, Cursor.past_past]
      rw [ih hspellTail _ _ rfl]
      · simp
      · simp at hrounds; omega
      · simp [hcolumn]

/-- A quoted scalar is read at its opening quote. -/
lemma quoted_spelled (hspell : ∀ c ∈ cs, Spells single c (spell c))
    (hrest : cur.rest = (quoteOf single :: cs.flatMap spell ++ [quoteOf single]) ++ rest)
    (hnext : rest.head? ≠ some '\'') :
    quoted? single cur =
      some (cs, cur.past (quoteOf single :: cs.flatMap spell ++ [quoteOf single]) rest) := by
  have hbody : cur.rest = quoteOf single :: (cs.flatMap spell ++ quoteOf single :: rest) := by
    simpa using hrest
  have hlength : cs.length < cur.rest.length := by
    have hle := length_le_spelled hspell
    rw [hbody, List.length_cons, List.length_append]
    omega
  rw [quoted?, Cursor.skip_eq hbody, quotedFrom_spelled hspell hlength (by simp) rfl hnext,
    Cursor.past_past]
  rfl

end

/-! ### Plain scalars -/

/-- Characters of a scalar that are its own without quotes, from a word on: no blanks but single
spaces, no colon before a space and no number sign after one. -/
structure Unquoted (cs : List Char) : Prop where
  ne_nil : cs ≠ []
  head : cs.head? ≠ some ' '
  last : cs.getLast? ≠ some ' '
  comment : cs.head? ≠ some '#'
  chars : ∀ c ∈ cs, c ≠ ' ' → isBlankOrBreak c = false
  indicator : ∃ before, hasIndicator before cs = false

lemma hasIndicator_of_append {before c : Char} {x y : List Char}
    (h : hasIndicator before (x ++ c :: y) = false) : hasIndicator c y = false := by
  induction x generalizing before with
  | nil =>
    rw [List.nil_append, hasIndicator, Bool.or_eq_false_iff] at h
    exact h.2
  | cons d x ih =>
    rw [List.cons_append, hasIndicator, Bool.or_eq_false_iff] at h
    exact ih h.2

/-- What stands behind the first gap of a plain scalar is plain as well. -/
lemma Unquoted.tail {word tail : List Char} {gap : Nat}
    (h : Unquoted (word ++ (List.replicate (gap + 1) ' ' ++ tail)))
    (htail : tail.head? ≠ some ' ') : Unquoted tail := by
  have hcut : word ++ (List.replicate (gap + 1) ' ' ++ tail) =
      (word ++ List.replicate gap ' ') ++ ' ' :: tail := by
    simp [List.replicate_succ']
  rw [hcut] at h
  have hne : tail ≠ [] := by
    rintro rfl
    exact h.last (by simp)
  obtain ⟨before, hbefore⟩ := h.indicator
  have hindicator := hasIndicator_of_append hbefore
  refine ⟨hne, htail, ?_, ?_, fun c hc => h.chars c (by simp [hc]), ' ', hindicator⟩
  · obtain ⟨c, tail, rfl⟩ := List.exists_cons_of_ne_nil hne
    simpa using h.last
  · intro hcomment
    obtain ⟨tail, rfl⟩ := List.head?_eq_some_iff.mp hcomment
    simp [hasIndicator, isBlankOrBreak, isBlank] at hindicator

/-- A word of a plain scalar ends at the space behind it, or where the scalar does. -/
lemma plainLength_word {word tail rest : List Char} {before : Char}
    (hword : ∀ c ∈ word, isBlankOrBreak c = false)
    (htail : tail.head? = some ' ' ∨ tail = [] ∧ plainLength false rest = 0)
    (hindicator : hasIndicator before (word ++ tail) = false) :
    plainLength false (word ++ (tail ++ rest)) = word.length := by
  induction word generalizing before with
  | nil =>
    rcases htail with hspace | ⟨rfl, hrest⟩
    · obtain ⟨tail, rfl⟩ := List.head?_eq_some_iff.mp hspace
      rfl
    · exact hrest
  | cons c word ih =>
    rw [List.cons_append, hasIndicator, Bool.or_eq_false_iff, Bool.or_eq_false_iff] at hindicator
    obtain ⟨⟨hcolon, _⟩, hindicator⟩ := hindicator
    have hc := hword c List.mem_cons_self
    have hrec := ih (fun d hd => hword d (List.mem_cons_of_mem _ hd)) hindicator
    have hgoes : (c == ':' && (word ++ (tail ++ rest)).head?.all isBlankOrBreak) = false := by
      cases word with
      | nil =>
        have hblank : blankNext tail = true := by
          rcases htail with hspace | ⟨rfl, _⟩
          · rw [blankNext, hspace]
            rfl
          · rfl
        rw [List.nil_append, hblank, Bool.and_true] at hcolon
        rw [hcolon, Bool.false_and]
      | cons d word =>
        have hd := hword d (by simp)
        simp [hd]
    rw [List.cons_append, plainLength, hc, hgoes, hrec]
    rfl

/-- What happens behind a word of a plain scalar. -/
def afterWord (indent rounds : Nat) (done : List Char) (c : Cursor) :
    Option (List Char × Bool × Cursor) :=
  if c.sees 0 isBlankOrBreak then
    match gap? indent {} c with
    | none => none
    | some (g, c) =>
      if c.column < indent then some (done, g.lineEnded, c)
      else plainFrom false indent rounds done g c
  else some (done, false, c)

section

variable {indent rounds : Nat} {done cs word rest next : List Char} {g : Gap} {cur : Cursor}

lemma plainFrom_word (hrest : cur.rest = word ++ rest) (hword : word ≠ [])
    (hcomment : word.head? ≠ some '#') (hdocument : cur.documentIndicator = false)
    (hlength : plainLength false (word ++ rest) = word.length) :
    plainFrom false indent (rounds + 1) done g cur =
      afterWord indent rounds (done ++ g.text ++ word) (cur.past word rest) := by
  have hpos : word.length ≠ 0 := by simpa using hword
  have hnumber : cur.atChar '#' = false := by
    obtain ⟨c, word, rfl⟩ := List.exists_cons_of_ne_nil hword
    simpa [Cursor.atChar, Cursor.peek?, hrest] using hcomment
  rw [plainFrom, hdocument, hnumber, hrest, hlength]
  simp only [Bool.or_self, Bool.false_eq_true, if_false, if_neg hpos, List.take_left,
    Cursor.skipN_eq hrest, Bool.not_false, Bool.true_and, decide_eq_true_eq]
  rfl

/-- A plain scalar is read up to its last word. -/
lemma plainFrom_unquoted (h : Unquoted cs) (hrest : cur.rest = cs ++ rest)
    (hdocument : cur.documentIndicator = false) (hindent : indent ≤ 1)
    (hstop : plainLength false rest = 0) (hrounds : cs.length ≤ rounds) :
    ∃ left, plainFrom false indent rounds done g cur =
      afterWord indent left (done ++ g.text ++ cs) (cur.past cs rest) := by
  induction rounds generalizing cs done g cur with
  | zero => exact absurd (List.length_eq_zero_iff.mp (Nat.le_zero.mp hrounds)) h.ne_nil
  | succ rounds ih =>
    obtain ⟨word, gap, tail, rfl, hword, htail, hgap⟩ := exists_word_gap cs
    obtain ⟨before, hindicator⟩ := h.indicator
    have hchars : ∀ c ∈ word, isBlankOrBreak c = false := fun c hc =>
      h.chars c (List.mem_append_left _ hc) (ne_of_mem_of_not_mem hc hword)
    have hbehind : (List.replicate gap ' ' ++ tail).head? = some ' ' ∨
        List.replicate gap ' ' ++ tail = [] ∧ plainLength false rest = 0 := by
      cases gap with
      | zero => exact .inr ⟨hgap rfl, hstop⟩
      | succ gap => exact .inl rfl
    have hne : word ≠ [] := by
      rintro rfl
      rcases hbehind with hspace | ⟨hnil, _⟩
      · exact h.head hspace
      · exact h.ne_nil hnil
    have hcomment : word.head? ≠ some '#' := by
      have hhead := h.comment
      rwa [List.head?_append_of_ne_nil _ hne] at hhead
    rw [List.append_assoc] at hrest
    rw [plainFrom_word hrest hne hcomment hdocument (plainLength_word hchars hbehind hindicator)]
    cases gap with
    | zero =>
      obtain rfl := hgap rfl
      exact ⟨rounds, by simp⟩
    | succ gap =>
      have htailUnquoted := h.tail htail
      obtain ⟨c, more, rfl⟩ := List.exists_cons_of_ne_nil htailUnquoted.ne_nil
      have hc : isBlankOrBreak c = false :=
        htailUnquoted.chars c List.mem_cons_self fun heq => htail (congrArg some heq)
      have hsees : (cur.past word (List.replicate (gap + 1) ' ' ++ c :: more ++ rest)).sees 0
          isBlankOrBreak = true := rfl
      rw [afterWord, if_pos hsees, List.append_assoc,
        gap_spaces rfl (by simpa using hc : (c :: more ++ rest).head?.any isBlankOrBreak = false)]
      simp only [Cursor.past_past]
      have hcolumn : (cur.past (word ++ List.replicate (gap + 1) ' ') (c :: more ++ rest)).column =
          cur.column + (word.length + (gap + 1)) := by simp
      rw [if_neg (by omega)]
      -- The rest of the scalar follows a gap, so it is not at the start of a line.
      have hdocumentTail := Cursor.documentIndicator_of_column
        (c := cur.past (word ++ List.replicate (gap + 1) ' ') (c :: more ++ rest)) (by omega)
      obtain ⟨left, hleft⟩ := ih htailUnquoted rfl hdocumentTail (by simp at hrounds ⊢; omega)
      refine ⟨left, hleft.trans ?_⟩
      rw [Cursor.past_past]
      simp [Gap.text]

lemma plain_unquoted (h : Unquoted cs) (hrest : cur.rest = cs ++ rest)
    (hdocument : cur.documentIndicator = false) (hindent : indent ≤ 1)
    (hstop : plainLength false rest = 0) :
    ∃ left, plain? false indent cur = afterWord indent left cs (cur.past cs rest) := by
  have hread : ∃ left, plainFrom false indent cur.rest.length [] {} cur =
      afterWord indent left ([] ++ ({} : Gap).text ++ cs) (cur.past cs rest) :=
    plainFrom_unquoted h hrest hdocument hindent hstop (by simp [hrest])
  exact hread

/-- A plain scalar before a colon. -/
lemma plain_colon (h : Unquoted cs) (hrest : cur.rest = cs ++ ':' :: ' ' :: rest)
    (hdocument : cur.documentIndicator = false) (hindent : indent ≤ 1) :
    plain? false indent cur = some (cs, false, cur.past cs (':' :: ' ' :: rest)) := by
  obtain ⟨left, hleft⟩ := plain_unquoted h hrest hdocument hindent rfl
  rw [hleft]
  rfl

lemma gap_break (hrest : cur.rest = '\n' :: next)
    (hnext : next.head?.any isBlankOrBreak = false) :
    gap? indent {} cur =
      some ({ lineEnded := true, firstBreak := ['\n'] },
        ⟨next, cur.line + 1, 0, cur.index + 1, true⟩) := by
  have hpeek : cur.peek? = some '\n' := by simp [Cursor.peek?, hrest]
  have hbreak : cur.readBreak = (['\n'], ⟨next, cur.line + 1, 0, cur.index + 1, true⟩) := by
    simp only [Cursor.readBreak, hrest]
    rfl
  rw [gap?, hrest, List.length_cons, gapFrom, hpeek]
  simp only [hbreak]
  exact gapFrom_stop hnext

/-- A plain scalar at the end of its line. -/
lemma plain_break (h : Unquoted cs) (hrest : cur.rest = cs ++ '\n' :: next)
    (hdocument : cur.documentIndicator = false)
    (hnext : next.head?.any isBlankOrBreak = false) :
    plain? false 1 cur =
      some (cs, true, ⟨next, cur.line + 1, 0, cur.index + cs.length + 1, true⟩) := by
  obtain ⟨left, hleft⟩ := plain_unquoted h hrest hdocument (Nat.le_refl 1) rfl
  have hsees : (cur.past cs ('\n' :: next)).sees 0 isBlankOrBreak = true := rfl
  rw [hleft, afterWord, if_pos hsees, gap_break rfl hnext]
  rfl

end

end SheetFormula.Yaml
