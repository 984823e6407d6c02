import Mathlib.Data.List.Basic
import Mathlib.Tactic.Lemma
import Mathlib.Tactic.SplitIfs
import SheetFormula.Proofs.Yaml.Writer
import SheetFormula.Yaml.Token

/-!
# Tokens of a written mapping

The tokens of a block mapping are those of its pairs, one after the other. Between two pairs the
scanner is at the start of a line, and a possible key that it remembers may be forgotten.
-/

namespace SheetFormula.Yaml.Scanner

variable {s : Scanner} {c : Cursor} {ch : Char} {w rest next : List Char}

/-! ### Moving to a token -/

/-- Nothing that is skipped before a token stands at the start of some characters. -/
def Ready (rest : List Char) : Prop := ∀ c ∈ rest.head?, Starts c

lemma Ready.any_eq_false {p : Char → Bool} (h : Ready rest) (hp : ∀ c, Starts c → p c = false) :
    rest.head?.any p = false := by
  cases rest with
  | nil => rfl
  | cons c rest => exact hp c (h c rfl)

lemma ready_written {cs ws : List Char} {isPlain : Bool} (h : Written cs isPlain ws) :
    Ready (ws ++ rest) := by
  obtain ⟨ch, ws, rfl, hch⟩ := h.starts
  rintro c ⟨⟩
  exact hch

lemma ready_colon : Ready (':' :: rest) := by
  rintro c ⟨⟩
  exact ⟨by decide, by decide, by decide, by decide⟩

lemma sees_zero {p : Char → Bool} : c.sees 0 p = c.rest.head?.any p := by
  rw [Cursor.sees, Cursor.peekAt?, ← List.head?_eq_getElem?]

/-- Spaces before a token are skipped. -/
lemma toToken_spaces {n : Nat} (hrest : s.cursor.rest = w ++ rest) (hw : ∀ d ∈ w, d = ' ')
    (h : Ready rest) : toToken (n + 1) s = { s with cursor := s.cursor.past w rest } := by
  have hmark : s.cursor.sees 0 (·.toNat == 0xFEFF) = false := by
    rw [sees_zero, hrest]
    cases w with
    | nil => exact h.any_eq_false fun c hc => by simp [hc.mark]
    | cons d w => simp [hw d List.mem_cons_self]
  have hskip : s.cursor.skipWhile
      (fun ch => ch == ' ' || ((s.inFlow || !s.keyAllowed) && ch == '\t')) =
        s.cursor.past w rest := by
    refine Cursor.skipWhile_eq hrest (fun d hd => by simp [hw d hd]) (h.any_eq_false fun c hc => ?_)
    have hblank := hc.isBlank_eq_false
    rw [isBlank, Bool.or_eq_false_iff] at hblank
    simp [hblank]
  have hcomment : (s.cursor.past w rest).atChar '#' = false := by
    have hany := h.any_eq_false (p := (· == '#')) fun c hc => by simp [hc.comment]
    cases rest with
    | nil => rfl
    | cons c rest => simpa [Cursor.atChar, Cursor.peek?] using hany
  have hbreak : (s.cursor.past w rest).sees 0 isBreak = false := by
    rw [sees_zero]
    exact h.any_eq_false fun c hc => hc.isBreak_eq_false
  rw [toToken, hmark]
  simp only [Bool.and_false, Bool.false_eq_true, if_false, hskip, hcomment, hbreak]

lemma toToken_self {n : Nat} (h : Ready s.cursor.rest) : toToken (n + 1) s = s := by
  rw [toToken_spaces (w := []) rfl (by simp) h, Cursor.past_nil rfl]

/-- A line break before a token is skipped, and the token may be a key. -/
lemma toToken_break {n : Nat} (hflow : s.inFlow = false) (hrest : s.cursor.rest = '\n' :: next)
    (h : Ready next) :
    toToken (n + 2) s =
      { s with
        cursor := ⟨next, s.cursor.line + 1, 0, s.cursor.index + 1, true⟩, keyAllowed := true } := by
  have hmark : s.cursor.sees 0 (·.toNat == 0xFEFF) = false := by
    rw [sees_zero, hrest]
    rfl
  have hskip : s.cursor.skipWhile
      (fun ch => ch == ' ' || ((s.inFlow || !s.keyAllowed) && ch == '\t')) = s.cursor := by
    rw [Cursor.skipWhile_eq (w := []) hrest (by simp) (by simp), Cursor.past_nil hrest]
  have hcomment : s.cursor.atChar '#' = false := by simp [Cursor.atChar, Cursor.peek?, hrest]
  have hbreak : s.cursor.sees 0 isBreak = true := by
    rw [sees_zero, hrest]
    rfl
  have hnext : s.cursor.skipBreak = ⟨next, s.cursor.line + 1, 0, s.cursor.index + 1, true⟩ := by
    simp only [Cursor.skipBreak, Cursor.readBreak, hrest]
    rfl
  rw [toToken, hmark]
  simp only [Bool.and_false, Bool.false_eq_true, if_false, hskip, hcomment, hbreak, if_true, hnext]
  rw [hflow, Bool.not_false, Bool.or_true, toToken_self h]

/-! ### The token at the cursor -/

lemma content_quote (single : Bool) : s.content (quoteOf single) = s.quotedScalar single := by
  cases single <;> rfl

/-- A scalar that is written without quotes is scanned as a plain one. -/
lemma content_bare {cs : List Char} (h : Bare (ch :: cs)) (hflow : s.inFlow = false)
    (hrest : s.cursor.rest = ch :: cs ++ rest) : s.content ch = s.plainScalar := by
  obtain ⟨_, hother, hblank, _⟩ := indicates_cons h.starts
  have hword : isBlankOrBreak ch = false :=
    h.chars ch List.mem_cons_self fun hc => h.head (congrArg some hc)
  -- An indicator that starts the scalar is followed by a part of its first word.
  have hnext : ch = '?' ∨ ch = ':' ∨ ch = '-' →
      s.cursor.blankOrEndAt 1 = false ∧ s.cursor.sees 1 isBlank = false := by
    intro hc
    have hb := hblank hc
    cases cs with
    | nil => exact absurd hb (by decide)
    | cons d cs =>
      have hd : isBlank d = false := by simpa [blankNext] using hb
      have hd' : isBlankOrBreak d = false := by
        refine h.chars d (by simp) ?_
        rintro rfl
        exact absurd hd (by decide)
      simp [Cursor.blankOrEndAt, Cursor.sees, Cursor.peekAt?, hrest, hd, hd']
  have hstep : ∀ d, d = '?' ∨ d = ':' ∨ d = '-' →
      (ch == d && s.cursor.blankOrEndAt 1) = false := by
    intro d hd
    by_cases hc : ch = d
    · rw [(hnext (hc ▸ hd)).1, Bool.and_false]
    · simp [hc]
  have hplain : s.startsPlain ch = true := by
    by_cases hc : ch = '?' ∨ ch = ':' ∨ ch = '-'
    · obtain ⟨hend, hsees⟩ := hnext hc
      rcases hc with rfl | rfl | rfl <;> simp [startsPlain, hend, hsees, hflow]
    · have hindicator : isIndicator ch = false := by
        simp only [startsOther, isIndicator, List.contains_eq_mem, decide_eq_false_iff_not,
          List.mem_cons, not_or] at hother hc ⊢
        tauto
      simp [startsPlain, hword, hindicator]
  have hne : ∀ d, startsOther d = true → (ch == d) = false := by
    intro d hd
    rw [beq_eq_false_iff_ne]
    rintro rfl
    exact absurd hd (by simp [hother])
  rw [content, hne '[' rfl, hne '\x7b' rfl, hne ']' rfl, hne '\x7d' rfl, hne ',' rfl, hflow]
  simp only [Bool.false_or, hstep, hne '*' rfl, hne '&' rfl, hne '!' rfl, hne '|' rfl,
    hne '>' rfl, hne '\'' rfl, hne '"' rfl, hplain, true_or, or_true, Bool.false_and, if_true,
    Bool.false_eq_true, if_false]

/-- Outside of flow collections, with no key that has to come. -/
def Droppable (s : Scanner) : Prop :=
  ∃ key : Option SimpleKey, s.keys = [key] ∧ ∀ k ∈ key, k.required = false

/-- The possible key at the cursor. -/
def keyHere (s : Scanner) : SimpleKey :=
  ⟨s.indent == (s.cursor.column : Int), s.tokens.length, s.cursor.line, s.cursor.column,
    s.cursor.index⟩

/-- The scanner with the possible key at the cursor remembered, where a key may stand. -/
def noted (s : Scanner) : Scanner :=
  if s.keyAllowed then { s with keys := [some s.keyHere] } else s

lemma inFlow_of_keys {key : Option SimpleKey} (h : s.keys = [key]) : s.inFlow = false := by
  simp [inFlow, flowLevel, h]

lemma Droppable.inFlow_eq_false (h : s.Droppable) : s.inFlow = false := by
  obtain ⟨key, hkeys, _⟩ := h
  exact inFlow_of_keys hkeys

lemma dropKey_eq (h : s.Droppable) : s.dropKey = some { s with keys := [none] } := by
  obtain ⟨key, hkeys, hrequired⟩ := h
  cases key with
  | none =>
    have hself : { s with keys := [none] } = s := by rw [← hkeys]
    rw [hself, dropKey, hkeys]
  | some k => simp [dropKey, hkeys, hrequired k rfl]

lemma saveKey_eq (h : s.Droppable) : s.saveKey = some s.noted := by
  rw [saveKey, noted]
  cases hallowed : s.keyAllowed with
  | false => rfl
  | true =>
    simp only [if_true, dropKey_eq h, h.inFlow_eq_false, Option.bind_eq_bind, Option.bind_some,
      hallowed, Bool.not_false, Bool.true_and]
    rfl

section

variable (s)

@[simp] lemma cursor_noted : s.noted.cursor = s.cursor := by
  unfold noted; split_ifs <;> rfl

@[simp] lemma tokens_noted : s.noted.tokens = s.tokens := by
  unfold noted; split_ifs <;> rfl

@[simp] lemma indent_noted : s.noted.indent = s.indent := by
  unfold noted; split_ifs <;> rfl

@[simp] lemma indents_noted : s.noted.indents = s.indents := by
  unfold noted; split_ifs <;> rfl

end

lemma inFlow_noted (h : s.Droppable) : s.noted.inFlow = false := by
  unfold noted
  split_ifs
  · rfl
  · exact h.inFlow_eq_false

/-- The scanner behind a scalar. -/
def withScalar (s : Scanner) (isPlain : Bool) (cs : List Char) (c : Cursor) (allowed : Bool) :
    Scanner :=
  { s.noted with
    tokens := s.token (.scalar isPlain cs) :: s.tokens, cursor := c, keyAllowed := allowed }

section

variable {cs ws : List Char} {isPlain : Bool}

lemma quotedScalar_eq {single : Bool} (hdrop : s.Droppable)
    (hread : quoted? single s.cursor = some (cs, c)) :
    s.quotedScalar single = some (s.withScalar false cs c false) := by
  simp only [quotedScalar, saveKey_eq hdrop, Option.bind_eq_bind, Option.bind_some, cursor_noted,
    hread]
  simp [push, token, withScalar]

lemma plainScalar_eq {ended : Bool} (hdrop : s.Droppable)
    (hread : plain? false (s.indent + 1).toNat s.cursor = some (cs, ended, c)) :
    s.plainScalar = some (s.withScalar true cs c ended) := by
  simp only [plainScalar, saveKey_eq hdrop, Option.bind_eq_bind, Option.bind_some, cursor_noted,
    indent_noted, inFlow_noted hdrop, hread]
  simp [push, token, withScalar]

/-- A written scalar before a colon. -/
lemma content_before_colon (h : Written cs isPlain (ch :: ws)) (hdrop : s.Droppable)
    (hindent : s.indent ≤ 0) (hdocument : s.cursor.documentIndicator = false)
    (hrest : s.cursor.rest = ch :: ws ++ ':' :: ' ' :: rest) :
    s.content ch =
      some (s.withScalar isPlain cs (s.cursor.past (ch :: ws) (':' :: ' ' :: rest)) false) := by
  generalize htext : ch :: ws = text at h hrest
  cases h with
  | plain h =>
    subst htext
    rw [content_bare h hdrop.inFlow_eq_false hrest]
    exact plainScalar_eq hdrop (plain_colon h.toUnquoted hrest hdocument (by omega))
  | quoted single spell hspell =>
    obtain ⟨rfl, _⟩ := List.cons.inj htext
    rw [content_quote]
    exact quotedScalar_eq hdrop (quoted_spelled hspell hrest (by simp))

end

/-! ### Lines -/

/-- The next token is at the start of a line with the characters `next`, and a possible key that is
remembered stands on an earlier line. -/
structure AtLine (next : List Char) (s : Scanner) : Prop where
  droppable : s.Droppable
  moves : ∃ c : Cursor, c.rest = next ∧ c.column = 0 ∧ (∀ k, some k ∈ s.keys → k.line < c.line) ∧
    toToken (s.cursor.rest.length + 1) s = { s with cursor := c, keyAllowed := true }

/-- No comment follows on the line of a token if something else does. -/
lemma lineComment_self (hrest : s.cursor.rest = w ++ rest) (hw : ∀ d ∈ w, isBlank d = true)
    (hstop : rest.head?.any isBlank = false) (hcomment : rest.head? ≠ some '#') :
    s.lineComment = s := by
  have hat : (s.cursor.past w rest).atChar '#' = false := by
    simpa [Cursor.atChar, Cursor.peek?] using hcomment
  rw [lineComment, Cursor.skipWhile_eq hrest hw hstop]
  simp [hat]

lemma lineComment_ready (hrest : s.cursor.rest = ' ' :: rest) (h : Ready rest) :
    s.lineComment = s := by
  refine lineComment_self (w := [' ']) hrest (List.all_eq_true.mp rfl)
    (h.any_eq_false fun c hc => hc.isBlank_eq_false) fun hcomment => ?_
  exact (h '#' hcomment).comment rfl

section

variable {cs ws : List Char} {isPlain : Bool}

/-- A scalar inside a line need not be a key, and on the next line it cannot be one. -/
lemma atLine_withScalar {allowed : Bool} (hkeys : s.keys = [none]) (hindent : s.indent = 0)
    (hcolumn : s.cursor.column ≠ 0)
    (hmove : ∃ next', next'.rest = next ∧ next'.column = 0 ∧ s.cursor.line < next'.line ∧
      toToken (c.rest.length + 1) (s.withScalar isPlain cs c allowed) =
        { s.withScalar isPlain cs c allowed with cursor := next', keyAllowed := true }) :
    (s.withScalar isPlain cs c allowed).AtLine next := by
  obtain ⟨next', hrest, hstart, hline, hmove⟩ := hmove
  have hkey : s.noted.keys = [none] ∨ s.noted.keys = [some s.keyHere] := by
    unfold noted
    split_ifs
    · exact .inr rfl
    · exact .inl hkeys
  have hrequired : s.keyHere.required = false := by
    simp only [keyHere, hindent, beq_eq_false_iff_ne]
    omega
  rcases hkey with hnone | hsome
  · refine ⟨⟨none, hnone, by simp⟩, next', hrest, hstart, fun k hk => ?_, hmove⟩
    have hmem : some k ∈ s.noted.keys := hk
    simp [hnone] at hmem
  · refine ⟨⟨some s.keyHere, hsome, by simpa using hrequired⟩, next', hrest, hstart,
      fun k hk => ?_, hmove⟩
    have hmem : some k ∈ s.noted.keys := hk
    simp only [hsome, List.mem_singleton, Option.some.injEq] at hmem
    rw [hmem]
    exact hline

/-- A written scalar at the end of its line leads to the next line. -/
lemma content_before_break (h : Written cs isPlain (ch :: ws)) (hkeys : s.keys = [none])
    (hindent : s.indent = 0) (hcolumn : s.cursor.column ≠ 0)
    (hrest : s.cursor.rest = ch :: ws ++ '\n' :: next) (hnext : Ready next) :
    ∃ c allowed, s.content ch = some (s.withScalar isPlain cs c allowed) ∧
      (s.withScalar isPlain cs c allowed).lineComment = s.withScalar isPlain cs c allowed ∧
      (s.withScalar isPlain cs c allowed).AtLine next := by
  have hdrop : s.Droppable := ⟨none, hkeys, by simp⟩
  generalize htext : ch :: ws = text at h hrest
  cases h with
  | plain h =>
    subst htext
    have hread := plain_break h.toUnquoted hrest (Cursor.documentIndicator_of_column hcolumn)
      (hnext.any_eq_false fun c hc => hc.word)
    have hcontent := plainScalar_eq hdrop (by rw [hindent]; exact hread)
    rw [content_bare h hdrop.inFlow_eq_false hrest, hcontent]
    refine ⟨_, true, rfl, rfl, atLine_withScalar hkeys hindent hcolumn ?_⟩
    exact ⟨_, rfl, rfl, Nat.lt_succ_self _, toToken_self hnext⟩
  | quoted single spell hspell =>
    obtain ⟨rfl, _⟩ := List.cons.inj htext
    rw [content_quote, quotedScalar_eq hdrop (quoted_spelled hspell hrest (by simp))]
    refine ⟨_, false, rfl, ?_, atLine_withScalar hkeys hindent hcolumn ?_⟩
    · exact lineComment_self (w := []) rfl (by simp) rfl (by simp)
    · exact ⟨⟨next, s.cursor.line + 1, 0, _, true⟩, rfl, rfl, Nat.lt_succ_self _,
        toToken_break (inFlow_noted hdrop) rfl hnext⟩

end

/-! ### Rounds -/

/-- Some rounds lead from one state of the scanner to another without an end of the stream. -/
def Runs (n : Nat) (s s' : Scanner) : Prop := ∀ rounds, run (rounds + n) s = run rounds s'

lemma Runs.trans {n m : Nat} {s s' s'' : Scanner} (h : Runs n s s') (h' : Runs m s' s'') :
    Runs (n + m) s s'' := by
  intro rounds
  rw [Nat.add_comm n m, ← Nat.add_assoc, h, h']

lemma run_of_round {s s' : Scanner} {t : Token} {ts : List Token} (hround : s.round = some s')
    (htokens : s'.tokens = t :: ts) (rounds : Nat) :
    run (rounds + 1) s =
      if t.kind == .streamEnd then s'.tokens.reverse else run rounds s' := by
  rw [run.eq_def (rounds + 1) s]
  simp only [hround, htokens]

lemma unrollIndent_self (hindent : s.indent ≤ 0) (column : Nat) : s.unrollIndent column = s := by
  have hcolumn : ¬ (column : Int) < s.indent := by omega
  rw [unrollIndent]
  split_ifs
  · rfl
  · cases s.indents with
    | nil => rfl
    | cons outer indents => rw [unrollFrom, if_neg hcolumn]

/-- A round reads the token at the place that is moved to. -/
lemma runs_content {s₁ s₂ : Scanner} {t : Token} {ts : List Token}
    (hmove : toToken (s.cursor.rest.length + 1) s = s₁) (hindent : s₁.indent ≤ 0)
    (hrest : s₁.cursor.rest = ch :: rest) (hdirective : ch ≠ '%')
    (hdocument : s₁.cursor.documentIndicator = false) (hcontent : s₁.content ch = some s₂)
    (hcomment : s₂.lineComment = s₂) (htokens : s₂.tokens = t :: ts)
    (hentry : t.kind ≠ .blockEntry) (hend : t.kind ≠ .streamEnd) : Runs 1 s s₂ := by
  have hpeek : s₁.cursor.peek? = some ch := by simp [Cursor.peek?, hrest]
  have hmarks : s₁.cursor.documentMark '-' = false ∧ s₁.cursor.documentMark '.' = false :=
    Bool.or_eq_false_iff.mp hdocument
  have hafter : s₂.afterEntry = false := by simp [afterEntry, htokens, hentry]
  have hround : s.round = some s₂ := by
    unfold round
    simp only [hmove, unrollIndent_self hindent, hpeek, hmarks, hcontent, hafter, hcomment,
      Bool.false_eq_true, if_false, Option.bind_eq_bind, Option.bind_some]
    simp [hdirective]
  intro rounds
  rw [run_of_round hround htokens, if_neg (by simpa using hend)]

/-- The tokens of a mapping so far. Its start is put before its first key, so it counts also while
it is not there. -/
def Block (s : Scanner) (ts : List Token) (kinds : List TokenKind) : Prop :=
  s.indent = -1 ∧ s.indents = [] ∧ kinds = .blockMappingStart :: ts.map Token.kind ∨
    s.indent = 0 ∧ s.indents = [-1] ∧ kinds = ts.map Token.kind

lemma Block.indent_le {ts : List Token} {kinds : List TokenKind} (h : s.Block ts kinds) :
    s.indent ≤ 0 := by
  rcases h with ⟨hindent, _⟩ | ⟨hindent, _⟩ <;> omega

/-- Inside a line of a mapping, behind an indicator. -/
structure Inside (kinds : List TokenKind) (rest : List Char) (s : Scanner) : Prop where
  indent : s.indent = 0
  indents : s.indents = [-1]
  keys : s.keys = [none]
  kinds : s.tokens.map Token.kind = kinds
  column : s.cursor.column ≠ 0
  rest : s.cursor.rest = ' ' :: rest

/-- At the start of a line of a mapping that has been opened. -/
structure Between (kinds : List TokenKind) (next : List Char) (s : Scanner) : Prop where
  line : s.AtLine next
  indent : s.indent = 0
  indents : s.indents = [-1]
  kinds : s.tokens.map Token.kind = kinds

section

variable {cs ws : List Char} {isPlain : Bool} {kinds : List TokenKind}

/-- The scalar behind an indicator ends its line. -/
lemma Inside.scalar (h : s.Inside kinds (ws ++ '\n' :: next)) (hws : Written cs isPlain ws)
    (hnext : Ready next) :
    ∃ s', Runs 1 s s' ∧ s'.Between (.scalar isPlain cs :: kinds) next := by
  have hready : Ready (ws ++ '\n' :: next) := ready_written hws
  obtain ⟨ch, ws, rfl, hch⟩ := hws.starts
  have hmove : toToken (s.cursor.rest.length + 1) s =
      { s with cursor := s.cursor.past [' '] (ch :: ws ++ '\n' :: next) } :=
    toToken_spaces h.rest (by simp) hready
  generalize hs₁ : { s with cursor := s.cursor.past [' '] (ch :: ws ++ '\n' :: next) } = s₁ at hmove
  have hkeys : s₁.keys = [none] := hs₁ ▸ h.keys
  have hindent : s₁.indent = 0 := hs₁ ▸ h.indent
  have hcolumn : s₁.cursor.column ≠ 0 := hs₁ ▸ Nat.succ_ne_zero _
  have hrest : s₁.cursor.rest = ch :: ws ++ '\n' :: next := hs₁ ▸ rfl
  obtain ⟨c, allowed, hcontent, hcomment, hline⟩ :=
    content_before_break hws hkeys hindent hcolumn hrest hnext
  refine ⟨_, runs_content hmove (Int.le_of_eq hindent) hrest hch.directive
    (Cursor.documentIndicator_of_column hcolumn) hcontent hcomment rfl (by simp [token])
    (by simp [token]), hline, ?_, ?_, ?_⟩
  · exact (indent_noted s₁).trans hindent
  · exact (indents_noted s₁).trans (hs₁ ▸ h.indents)
  · exact congrArg (TokenKind.scalar isPlain cs :: ·) (hs₁ ▸ h.kinds)

lemma blankOrEndAt_space (hrest : c.rest = ch :: ' ' :: rest) : c.blankOrEndAt 1 = true := by
  simp [Cursor.blankOrEndAt, Cursor.peekAt?, hrest, isBlankOrBreak, isBlank]

lemma documentIndicator_space (hrest : c.rest = ch :: ' ' :: rest) :
    c.documentIndicator = false := by
  simp [Cursor.documentIndicator, Cursor.documentMark, hrest]

lemma content_colon (hrest : s.cursor.rest = ':' :: ' ' :: rest) :
    s.content ':' = s.valueIndicator := by
  simp [content, blankOrEndAt_space hrest]

lemma content_question (hrest : s.cursor.rest = '?' :: ' ' :: rest) :
    s.content '?' = s.keyIndicator := by
  simp [content, blankOrEndAt_space hrest]

/-- Behind a scalar at the start of a line that a colon follows. -/
structure BehindKey (key : SimpleKey) (t : Token) (ts : List Token) (kinds : List TokenKind)
    (rest : List Char) (s : Scanner) : Prop where
  keys : s.keys = [some key]
  reach : s.inReach key = true
  tokens : s.tokens = t :: ts
  number : key.number = ts.length
  start : key.column = 0
  block : s.Block ts kinds
  column : s.cursor.column ≠ 0
  rest : s.cursor.rest = ':' :: ' ' :: rest

/-- The colon makes a key of the scalar, and opens the mapping if it is the first one. -/
lemma BehindKey.valueIndicator {key : SimpleKey} {t : Token} {ts : List Token}
    (h : s.BehindKey key t ts kinds rest) :
    ∃ ts', ts'.map Token.kind = .key :: kinds ∧
      s.valueIndicator = some
        ⟨s.cursor.past [':'] (' ' :: rest), s.token .value :: t :: ts', 0, [-1], [none],
          false⟩ := by
  have hskip : s.cursor.skipN 1 = s.cursor.past [':'] (' ' :: rest) := Cursor.skip_eq h.rest
  rcases h.block with ⟨hindent, hindents, rfl⟩ | ⟨hindent, hindents, rfl⟩
  · have hplace : ts.length + 1 + 1 - ts.length = 2 := by omega
    refine ⟨⟨.key, key.line, 0⟩ :: ⟨.blockMappingStart, key.line, 0⟩ :: ts, rfl, ?_⟩
    rw [Scanner.valueIndicator, h.keys]
    simp [h.reach, insert, rollIndent, h.tokens, h.number, h.start, hindent, hindents, inFlow,
      flowLevel, h.keys, take, push, token, hplace, hskip]
  · refine ⟨⟨.key, key.line, 0⟩ :: ts, rfl, ?_⟩
    rw [Scanner.valueIndicator, h.keys]
    simp [h.reach, insert, rollIndent, h.tokens, h.number, h.start, hindent, hindents, inFlow,
      flowLevel, h.keys, take, push, token, hskip]

lemma BehindKey.colon {key : SimpleKey} {t : Token} {ts : List Token}
    (h : s.BehindKey key t ts kinds rest) (hrest : Ready rest) :
    ∃ s', Runs 1 s s' ∧ s'.Inside (.value :: t.kind :: .key :: kinds) rest := by
  obtain ⟨ts', hkinds, hvalue⟩ := h.valueIndicator
  rw [← content_colon h.rest] at hvalue
  have hready : Ready s.cursor.rest := h.rest ▸ ready_colon
  refine ⟨_, runs_content (toToken_self hready) h.block.indent_le h.rest (by decide)
    (Cursor.documentIndicator_of_column h.column) hvalue (lineComment_ready rfl hrest) rfl
    (by simp [token]) (by simp [token]), rfl, rfl, rfl, ?_, Nat.succ_ne_zero _, rfl⟩
  simp [hkinds, token]

/-- A document mark does not start with a written scalar that a colon follows. -/
lemma documentIndicator_written (h : Written cs isPlain ws) (hrest : c.rest = ws ++ ':' :: rest) :
    c.documentIndicator = false := by
  have hmark : ∀ d : Char, d = '-' ∨ d = '.' → c.rest.take 3 ≠ [d, d, d] := by
    intro d hd
    rw [hrest]
    cases h with
    | plain h =>
      obtain ⟨c, ws, rfl⟩ := List.exists_cons_of_ne_nil h.ne_nil
      have hmarks := (indicates_cons h.starts).1
      rcases ws with _ | ⟨d', _ | ⟨e, ws⟩⟩
      · rcases hd with rfl | rfl <;> simp
      · rcases hd with rfl | rfl <;> simp
      · rcases hd with rfl | rfl
        · exact hmarks.1
        · exact hmarks.2
    | quoted single spell hspell => rcases hd with rfl | rfl <;> cases single <;> simp [quoteOf]
  simp only [Cursor.documentIndicator, Cursor.documentMark]
  simp [hmark]

/-- A scalar at the start of a line that a colon follows. -/
lemma AtLine.key (h : s.AtLine (ws ++ ':' :: ' ' :: rest)) (hblock : s.Block s.tokens kinds)
    (hws : Written cs isPlain ws) (hlength : ws.length ≤ 1024) :
    ∃ s' key t, Runs 1 s s' ∧ s'.BehindKey key t s.tokens kinds rest ∧
      t.kind = .scalar isPlain cs := by
  obtain ⟨ch, ws, rfl, hch⟩ := hws.starts
  obtain ⟨c, hc, hcolumn, _, hmove⟩ := h.moves
  have hdrop : { s with cursor := c, keyAllowed := true }.Droppable := h.droppable
  have hdocument := documentIndicator_written hws hc
  have hcontent := content_before_colon hws hdrop hblock.indent_le hdocument hc
  refine ⟨_, { s with cursor := c, keyAllowed := true }.keyHere, _, runs_content hmove
    hblock.indent_le hc hch.directive hdocument hcontent
    (lineComment_self (w := []) rfl (by simp) rfl (by simp)) rfl (by simp [token])
    (by simp [token]), ⟨rfl, ?_, rfl, rfl, hcolumn, hblock, ?_, rfl⟩, rfl⟩
  · simp only [inReach, keyHere, withScalar]
    simpa using hlength
  · simp [withScalar]

/-- An indicator at the start of a line opens the mapping if it is the first one. -/
lemma blockIndicator_eq (hflow : s.inFlow = false) (hallowed : s.keyAllowed = true)
    (hcolumn : s.cursor.column = 0) (hblock : s.Block s.tokens kinds) :
    ∃ ts, ts.map Token.kind = kinds ∧ s.blockIndicator .blockMappingStart =
      some { s with tokens := ts, indent := 0, indents := [-1] } := by
  rcases hblock with ⟨hindent, hindents, rfl⟩ | ⟨hindent, hindents, rfl⟩
  · refine ⟨s.token .blockMappingStart :: s.tokens, rfl, ?_⟩
    simp [blockIndicator, hflow, hallowed, rollIndent, hindent, hindents, hcolumn, insert]
  · have hself : { s with indent := 0, indents := [-1] } = s := by rw [← hindent, ← hindents]
    refine ⟨s.tokens, rfl, ?_⟩
    rw [hself]
    simp [blockIndicator, hflow, hallowed, rollIndent, hindent, hcolumn]

/-- The indicator of a key on a line of its own. -/
lemma AtLine.question (h : s.AtLine ('?' :: ' ' :: rest)) (hblock : s.Block s.tokens kinds)
    (hrest : Ready rest) : ∃ s', Runs 1 s s' ∧ s'.Inside (.key :: kinds) rest := by
  obtain ⟨c, hc, hcolumn, _, hmove⟩ := h.moves
  have hflow := h.droppable.inFlow_eq_false
  have hskip : c.skipN 1 = c.past ['?'] (' ' :: rest) := Cursor.skip_eq hc
  obtain ⟨ts, hts, hopen⟩ := blockIndicator_eq (s := { s with cursor := c, keyAllowed := true })
    hflow rfl hcolumn hblock
  have hdrop : Droppable ⟨c, ts, 0, [-1], s.keys, true⟩ := h.droppable
  have hkey : { s with cursor := c, keyAllowed := true }.content '?' =
      some ⟨c.past ['?'] (' ' :: rest), ⟨.key, c.line, c.column⟩ :: ts, 0, [-1], [none], true⟩ := by
    rw [content_question hc, keyIndicator, hopen]
    simp only [Option.bind_eq_bind, Option.bind_some, dropKey_eq hdrop, take, hskip]
    rfl
  refine ⟨_, runs_content hmove hblock.indent_le hc (by decide) (documentIndicator_space hc) hkey
    (lineComment_ready rfl hrest) rfl (by simp) (by simp), rfl, rfl, rfl, ?_, Nat.succ_ne_zero _,
    rfl⟩
  simp [hts]

/-- The colon on the line after a long key. -/
lemma Between.colon (h : s.Between kinds (':' :: ' ' :: rest)) (hrest : Ready rest) :
    ∃ s', Runs 1 s s' ∧ s'.Inside (.value :: kinds) rest := by
  obtain ⟨c, hc, hcolumn, hlines, hmove⟩ := h.line.moves
  obtain ⟨key, hkeys, hrequired⟩ := h.line.droppable
  have hskip : c.skipN 1 = c.past [':'] (' ' :: rest) := Cursor.skip_eq hc
  obtain ⟨ts, hts, hopen⟩ := blockIndicator_eq (s := ⟨c, s.tokens, 0, [-1], [none], true⟩)
    (inFlow_of_keys rfl) rfl hcolumn (.inr ⟨rfl, rfl, rfl⟩)
  have hcomplex : valueIndicator.complexValue ⟨c, s.tokens, 0, [-1], [none], true⟩ = some
      ⟨c.past [':'] (' ' :: rest), ⟨.value, c.line, c.column⟩ :: ts, 0, [-1], [none], true⟩ := by
    rw [valueIndicator.complexValue, hopen]
    simp only [Option.bind_eq_bind, Option.bind_some, take, hskip]
    rfl
  have hvalue : { s with cursor := c, keyAllowed := true }.content ':' = some
      ⟨c.past [':'] (' ' :: rest), ⟨.value, c.line, c.column⟩ :: ts, 0, [-1], [none], true⟩ := by
    rw [content_colon hc, valueIndicator, h.indent, h.indents, hkeys]
    cases key with
    | none => exact hcomplex
    | some k =>
      -- The long key is on an earlier line, so the colon does not make a short one of it.
      have hreach : inReach ⟨c, s.tokens, 0, [-1], [some k], true⟩ k = false := by
        simp [inReach, hlines k (by simp [hkeys])]
      simp only [hreach, hrequired k rfl, Bool.false_eq_true, if_false]
      exact hcomplex
  refine ⟨_, runs_content hmove (Int.le_of_eq h.indent) hc (by decide) (documentIndicator_space hc)
    hvalue (lineComment_ready rfl hrest) rfl (by simp) (by simp), rfl, rfl, rfl, ?_,
    Nat.succ_ne_zero _, rfl⟩
  simp [hts, h.kinds]

end

/-! ### Mappings -/

def pairKinds (p : List Char × List Char) : List TokenKind :=
  [.key, .scalar (style p.1 == .plain) p.1, .value, .scalar (style p.2 == .plain) p.2]

section

variable {key value text : List Char} {pairs : List (List Char × List Char)}
  {kinds : List TokenKind}

lemma ready_pair (h : WrittenPair key value text) : Ready (text ++ next) := by
  cases h with
  | short hkey _ _ =>
    rw [List.append_assoc]
    exact ready_written hkey
  | long hkey hvalue =>
    rintro c ⟨⟩
    exact ⟨by decide, by decide, by decide, by decide⟩

lemma ready_pairs (h : WrittenPairs pairs text) : Ready text := by
  cases h with
  | nil => rintro c ⟨⟩
  | cons hpair _ => exact ready_pair hpair

/-- The tokens of a pair are read from its lines. -/
lemma AtLine.pair (h : s.AtLine (text ++ next)) (hblock : s.Block s.tokens kinds)
    (hpair : WrittenPair key value text) (hnext : Ready next) :
    ∃ n s', n ≤ text.length ∧ Runs n s s' ∧
      s'.Between ((pairKinds (key, value)).reverse ++ kinds) next := by
  cases hpair with
  | @short k v hkey hlength hvalue =>
    have hline : s.AtLine (k ++ ':' :: ' ' :: (v ++ '\n' :: next)) := by simpa using h
    obtain ⟨s₁, _, t, hrun₁, hbehind, ht⟩ := hline.key hblock hkey hlength
    obtain ⟨s₂, hrun₂, hinside⟩ := hbehind.colon (ready_written hvalue)
    rw [ht] at hinside
    obtain ⟨s₃, hrun₃, hbetween⟩ := hinside.scalar hvalue hnext
    refine ⟨_, s₃, ?_, (hrun₁.trans hrun₂).trans hrun₃, hbetween⟩
    simp
    omega
  | @long k v hkey hvalue =>
    have hline : s.AtLine ('?' :: ' ' :: (k ++ '\n' :: ':' :: ' ' :: (v ++ '\n' :: next))) := by
      simpa using h
    obtain ⟨s₁, hrun₁, hinside₁⟩ := hline.question hblock (ready_written hkey)
    obtain ⟨s₂, hrun₂, hbetween₂⟩ := hinside₁.scalar hkey ready_colon
    obtain ⟨s₃, hrun₃, hinside₃⟩ := hbetween₂.colon (ready_written hvalue)
    obtain ⟨s₄, hrun₄, hbetween⟩ := hinside₃.scalar hvalue hnext
    refine ⟨_, s₄, ?_, ((hrun₁.trans hrun₂).trans hrun₃).trans hrun₄, hbetween⟩
    simp
    omega

lemma Between.block (h : s.Between kinds next) : s.Block s.tokens kinds :=
  .inr ⟨h.indent, h.indents, h.kinds.symm⟩

lemma round_end {s₁ s₂ : Scanner} (hmove : toToken (s.cursor.rest.length + 1) s = s₁)
    (hindent : s₁.indent ≤ 0) (hrest : s₁.cursor.rest = []) (hcolumn : s₁.cursor.column = 0)
    (hleave : s₁.leaveBlocks = some s₂) : s.round = some (s₂.push (s₂.token .streamEnd)) := by
  have hpeek : s₁.cursor.peek? = none := by simp [Cursor.peek?, hrest]
  have hstart : (s₁.cursor.column == 0) = true := by simp [hcolumn]
  unfold round
  simp only [hmove, unrollIndent_self hindent, hpeek, hstart, if_true]
  change (s₁.leaveBlocks.bind fun s => some (s.push (s.token .streamEnd))) = _
  rw [hleave, Option.bind_some]

lemma leaveBlocks_eq (hindent : s.indent = 0) (hindents : s.indents = [-1]) (hdrop : s.Droppable) :
    s.leaveBlocks = some
      { s with
        tokens := s.token .blockEnd :: s.tokens, indent := -1, indents := [], keys := [none]
        keyAllowed := false } := by
  have hclose : s.unrollIndent (-1) =
      { s with tokens := s.token .blockEnd :: s.tokens, indent := -1, indents := [] } := by
    rw [unrollIndent, hdrop.inFlow_eq_false, hindents]
    simp [unrollFrom, hindent, push]
  have hdrop' : Droppable
      { s with tokens := s.token .blockEnd :: s.tokens, indent := -1, indents := [] } := hdrop
  rw [leaveBlocks, hclose, dropKey_eq hdrop']
  rfl

/-- At the end of the stream the mapping is closed. -/
lemma Between.finish (h : s.Between kinds []) (rounds : Nat) :
    (run (rounds + 1) s).map Token.kind = kinds.reverse ++ [.blockEnd, .streamEnd] := by
  obtain ⟨c, hc, hcolumn, _, hmove⟩ := h.line.moves
  have hround := round_end hmove (Int.le_of_eq h.indent) hc hcolumn
    (leaveBlocks_eq h.indent h.indents h.line.droppable)
  rw [run_of_round hround rfl, if_pos (by rfl)]
  simp [push, token, h.kinds]

/-- The tokens of the pairs that are left. -/
lemma Between.run_pairs (hpairs : WrittenPairs pairs text) (h : s.Between kinds text) {rounds : Nat}
    (hrounds : text.length < rounds) :
    (run rounds s).map Token.kind =
      kinds.reverse ++ (pairs.flatMap pairKinds ++ [.blockEnd, .streamEnd]) := by
  induction hpairs generalizing s kinds rounds with
  | nil =>
    obtain ⟨rounds, rfl⟩ : ∃ m, rounds = m + 1 := ⟨rounds - 1, by omega⟩
    exact h.finish rounds
  | cons hpair hmore ih =>
    obtain ⟨n, s', hn, hrun, hbetween⟩ := h.line.pair h.block hpair (ready_pairs hmore)
    rw [List.length_append] at hrounds
    obtain ⟨rounds, rfl⟩ : ∃ m, rounds = m + n := ⟨rounds - n, by omega⟩
    rw [hrun rounds, ih hbetween (by omega)]
    simp

end

end SheetFormula.Yaml.Scanner

namespace SheetFormula.Yaml

open Scanner

/-- The tokens of a written mapping. -/
lemma tokens_written {pairs : List (List Char × List Char)} {text : List Char}
    (hpairs : WrittenPairs pairs text) (hne : pairs ≠ []) :
    (tokens text).map Token.kind =
      .streamStart :: .blockMappingStart ::
        (pairs.flatMap pairKinds ++ [.blockEnd, .streamEnd]) := by
  cases hpairs with
  | nil => exact absurd rfl hne
  | @cons key value line pairs more hpair hmore =>
    have hline : AtLine (line ++ more)
        { cursor := { rest := line ++ more }, tokens := [⟨.streamStart, 0, 0⟩] } :=
      ⟨⟨none, rfl, by simp⟩, { rest := line ++ more }, rfl, rfl, by simp,
        toToken_self (ready_pair hpair)⟩
    obtain ⟨n, s', hn, hrun, hbetween⟩ :=
      hline.pair (.inl ⟨rfl, rfl, rfl⟩) hpair (ready_pairs hmore)
    obtain ⟨rounds, hrounds⟩ : ∃ m, (line ++ more).length + 1 = m + n :=
      ⟨(line ++ more).length + 1 - n, by simp; omega⟩
    rw [tokens, hrounds, hrun rounds, hbetween.run_pairs hmore (by simp at hrounds; omega)]
    simp

end SheetFormula.Yaml
