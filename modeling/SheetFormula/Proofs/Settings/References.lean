import Mathlib.Data.List.Infix
import Mathlib.Tactic.Lemma
import SheetFormula.Settings.Reference

/-!
# Replacing references

A text in which literal chunks and references take turns. Replacing its references walks over it
once: no byte of a chunk starts a reference, not even together with what follows the chunk, and at
the start of a reference exactly this reference is found and passed over as a whole.
-/

namespace SheetFormula.Reference

/-- How every reference starts. -/
def mark : Text := "$\x7b"

/-- A reference that can be told from its text: the name is not empty and ends before the colon or
the brace, the default before the brace. -/
structure Proper (r : Reference) : Prop where
  name_ne_nil : r.name ≠ []
  name_brace : ('\x7d' : UInt8) ∉ r.name
  name_colon : (':' : UInt8) ∉ r.name
  default_brace : ∀ d ∈ r.default, ('\x7d' : UInt8) ∉ d

/-- A text in which no reference starts. -/
def Literal (t : Text) : Prop := ¬ mark <:+: t

instance decidableLiteral (t : Text) : Decidable (Literal t) :=
  inferInstanceAs (Decidable (¬ mark <:+: t))

/-- A text in which literal chunks and references take turns: each reference with the chunk before
it, and the chunk behind the last one. Chunks may be empty. -/
structure Alternation where
  parts : List (Text × Reference)
  last : Text

namespace Alternation

def text (a : Alternation) : Text := a.parts.flatMap (fun p => p.1 ++ p.2.text) ++ a.last

/-- The text with each reference replaced: by the value of its variable if this is not empty,
otherwise by its default if it has one. -/
def value (env : Environment) (a : Alternation) : Text :=
  a.parts.flatMap (fun p =>
    p.1 ++ if env p.2.name ≠ [] then env p.2.name else p.2.default.getD []) ++ a.last

/-- Chunks are literal, and references can be told. -/
structure Valid (a : Alternation) : Prop where
  chunks : ∀ p ∈ a.parts, Literal p.1
  references : ∀ p ∈ a.parts, p.2.Proper
  last : Literal a.last

end Alternation

/-! ### Literal chunks -/

lemma Literal.tail {b : UInt8} {t : Text} (h : Literal (b :: t)) : Literal t :=
  fun hmark => h (List.infix_cons hmark)

lemma atStart_of_no_mark {t : Text} (h : Text.dropStart? mark t = none) : atStart? t = none := by
  change (Text.dropStart? mark t).bind _ = none
  rw [h]
  rfl

/-- What follows a literal chunk does not complete the start of a reference that the chunk ends
with, because a reference starts with a dollar sign and not with a brace. -/
lemma dropStart_of_literal {b : UInt8} {t rest : Text} (h : Literal (b :: t))
    (hrest : ∀ a ∈ rest.head?, a ≠ '\x7b') : Text.dropStart? mark (b :: t ++ rest) = none := by
  have hmark : mark = [('$' : UInt8), ('\x7b' : UInt8)] := rfl
  rw [hmark, List.cons_append, Text.dropStart?]
  split_ifs with hdollar
  · subst hdollar
    cases t with
    | nil =>
      cases rest with
      | nil => rfl
      | cons a rest => rw [List.nil_append, Text.dropStart?, if_neg (hrest a rfl).symm]
    | cons c t =>
      have hbrace : ('\x7b' : UInt8) ≠ c := by
        rintro rfl
        exact h ⟨[], t, rfl⟩
      rw [List.cons_append, Text.dropStart?, if_neg hbrace]
  · rfl

lemma expandFrom_literal (env : Environment) {t rest : Text} (h : Literal t)
    (hrest : ∀ a ∈ rest.head?, a ≠ '\x7b') :
    expandFrom env 0 (t ++ rest) = t ++ expandFrom env 0 rest := by
  induction t with
  | nil => rfl
  | cons b t ih =>
    have hnone := atStart_of_no_mark (dropStart_of_literal h hrest)
    rw [List.cons_append] at hnone ⊢
    rw [expandFrom, hnone]
    simp only [ih h.tail, List.cons_append]

/-! ### References -/

lemma text_of_default_none {r : Reference} (h : r.default = none) (rest : Text) :
    r.text ++ rest = mark ++ (r.name ++ ('\x7d' : UInt8) :: rest) := by
  simp only [text, h, Option.toList_none, List.append_assoc]
  rfl

lemma text_of_default_some {r : Reference} {d : Text} (h : r.default = some d) (rest : Text) :
    r.text ++ rest =
      mark ++ (r.name ++ (':' : UInt8) :: ('-' : UInt8) :: (d ++ ('\x7d' : UInt8) :: rest)) := by
  have hafter : Text.eachAfter ":-" [d] = (':' : UInt8) :: ('-' : UInt8) :: d := by
    simp only [Text.eachAfter, List.flatMap_singleton]
    rfl
  simp only [text, h, Option.toList_some, hafter, List.append_assoc, List.cons_append]
  rfl

lemma expandFrom_skip (env : Environment) (t rest : Text) :
    expandFrom env t.length (t ++ rest) = expandFrom env 0 rest := by
  induction t with
  | nil => rfl
  | cons b t ih => exact ih

/-- The name that a reference starts with ends at the colon or at the brace behind it. -/
lemma Proper.cut {r : Reference} (h : r.Proper) {b : UInt8} (hb : isNameByte b = false)
    (rest : Text) :
    (r.name ++ b :: rest).takeWhile isNameByte = r.name ∧
      (r.name ++ b :: rest).dropWhile isNameByte = b :: rest := by
  have hinside : ∀ c ∈ r.name, isNameByte c = true := by
    intro c hc
    have hbrace := ne_of_mem_of_not_mem hc h.name_brace
    have hcolon := ne_of_mem_of_not_mem hc h.name_colon
    simp [isNameByte, hbrace, hcolon]
  rw [List.takeWhile_append_of_pos hinside, List.dropWhile_append_of_pos hinside]
  simp [hb]

/-- A reference is found at its start, whatever follows it. -/
lemma atStart_text {r : Reference} (h : r.Proper) (rest : Text) :
    atStart? (r.text ++ rest) = some r := by
  have hname : ¬ r.name.isEmpty = true := by simpa using h.name_ne_nil
  have hmark : ∀ t, Text.dropStart? "$\x7b" (mark ++ t) = some t := fun t => rfl
  cases hdefault : r.default with
  | none =>
    obtain ⟨htake, hdrop⟩ := h.cut (by decide : isNameByte '\x7d' = false) rest
    rw [text_of_default_none hdefault]
    simp only [atStart?, hmark, Option.bind_eq_bind, Option.bind_some, htake, hdrop,
      if_neg hname]
    rw [← hdefault]
    rfl
  | some d =>
    have hinside : ∀ b ∈ d, isDefaultByte b = true := by
      intro b hb
      simpa [isDefaultByte] using ne_of_mem_of_not_mem hb (h.default_brace d hdefault)
    obtain ⟨htake, hdrop⟩ := h.cut (by decide : isNameByte ':' = false)
      (('-' : UInt8) :: (d ++ ('\x7d' : UInt8) :: rest))
    have hcolon : Text.dropStart? ":-" ((':' : UInt8) :: ('-' : UInt8) ::
        (d ++ ('\x7d' : UInt8) :: rest)) = some (d ++ ('\x7d' : UInt8) :: rest) := rfl
    have hbrace : isDefaultByte '\x7d' = false := by decide
    rw [text_of_default_some hdefault]
    simp only [atStart?, hmark, Option.bind_eq_bind, Option.bind_some, htake, hdrop,
      if_neg hname, hcolon, List.takeWhile_append_of_pos hinside,
      List.dropWhile_append_of_pos hinside]
    simp [hbrace, ← hdefault]

lemma value_eq (env : Environment) (r : Reference) :
    r.value env = if env r.name ≠ [] then env r.name else r.default.getD [] := by
  cases hvalue : env r.name <;> simp [value, hvalue]

/-- A reference is replaced by its value, and what follows it is looked at next. -/
lemma expandFrom_text (env : Environment) {r : Reference} (h : r.Proper) (rest : Text) :
    expandFrom env 0 (r.text ++ rest) = r.value env ++ expandFrom env 0 rest := by
  have hfound := atStart_text h rest
  obtain ⟨more, htext⟩ : ∃ more, r.text = ('$' : UInt8) :: more := ⟨_, rfl⟩
  have hskip : r.text.length - 1 = more.length := by
    rw [htext, List.length_cons, Nat.add_sub_cancel]
  rw [htext, List.cons_append] at hfound ⊢
  rw [expandFrom, hfound]
  simp only [hskip, expandFrom_skip]

/-! ### Alternations -/

/-- Replacing references is one pass over a text: every literal chunk stays as it is, and every
reference gives way to its value, whatever the values are. In particular a value is not searched
for references, nor is a reference found that a value forms with its neighbours. -/
theorem references_replaced_once (env : Environment) {a : Alternation} (h : a.Valid) :
    expand env a.text = a.value env := by
  obtain ⟨parts, last⟩ := a
  obtain ⟨hchunks, hreferences, hlast⟩ := h
  rw [expand, Alternation.text, Alternation.value]
  induction parts with
  | nil =>
    have hend : expandFrom env 0 (last ++ []) = last ++ expandFrom env 0 [] :=
      expandFrom_literal env hlast (by simp)
    rwa [List.append_nil, expandFrom, List.append_nil] at hend
  | cons p parts ih =>
    obtain ⟨hchunk, hchunks⟩ := List.forall_mem_cons.mp hchunks
    obtain ⟨hreference, hreferences⟩ := List.forall_mem_cons.mp hreferences
    have hdollar : ∀ rest, ∀ b ∈ (p.2.text ++ rest).head?, b ≠ '\x7b' := by
      rintro rest b ⟨⟩
      decide
    simp only [List.flatMap_cons, List.append_assoc] at ih ⊢
    rw [expandFrom_literal env hchunk (hdollar _), expandFrom_text env hreference,
      value_eq, ih hchunks hreferences hlast]

/-- A chunk that ends with a dollar sign, a name with a dollar sign, a brace and a line feed in it,
and values that look like references: one by itself, and two with the chunk between them. -/
def nestedAlternation : Alternation where
  parts :=
    [("a$", ⟨"A", none⟩), (" ", ⟨"$\x7b\n ", some "$\x7bA:-"⟩), ("", ⟨"D", none⟩),
      ("\x7bA", ⟨"E", some "x"⟩)]
  last := "\x7d$"

/-- The values of the variables that the example refers to. -/
def nestedEnvironment : Environment := fun name =>
  if name = "A" then "$\x7bA\x7d" else if name = "D" then "$" else if name = "E" then "\x7d" else []

theorem nested_alternation_replaced_once :
    nestedAlternation.Valid ∧
      nestedAlternation.text =
        "a$$\x7bA\x7d $\x7b$\x7b\n :-$\x7bA:-\x7d$\x7bD\x7d\x7bA$\x7bE:-x\x7d\x7d$" ∧
      expand nestedEnvironment nestedAlternation.text =
        "a$$\x7bA\x7d $\x7bA:-$\x7bA\x7d\x7d$" := by
  have hvalid : nestedAlternation.Valid := by
    refine ⟨by decide, fun p hp => ?_, by decide⟩
    simp only [nestedAlternation, List.mem_cons, List.not_mem_nil, or_false] at hp
    rcases hp with rfl | rfl | rfl | rfl <;> exact ⟨by decide, by decide, by decide, by decide⟩
  refine ⟨hvalid, by decide, ?_⟩
  rw [references_replaced_once nestedEnvironment hvalid]
  decide

end SheetFormula.Reference
