import Mathlib.Tactic.Lemma
import Mathlib.Data.List.Basic
import SheetFormula.Text

/-!
# Formula terms

What a formula means as a tree: atoms, calls and infix operators. The grammar of formulas has five
levels, from atoms and calls, which bind tightest, over ranges, products and sums to comparisons;
operators of one level group to the left, and there are no parentheses but those of calls. A text
is a formula of a term exactly if it is the text of the term and the term groups its operands as
the levels do.
-/

namespace SheetFormula.Formula

/-- The infix operators of formulas. -/
inductive Operator where
  | range
  | times
  | divide
  | plus
  | minus
  | greater
  | less
  | atLeast
  | atMost
deriving DecidableEq, Repr

namespace Operator

/-- How loosely an operator binds. -/
def level : Operator → Nat
  | range => 1
  | times | divide => 2
  | plus | minus => 3
  | greater | less | atLeast | atMost => 4

def sign : Operator → Text
  | range => ":"
  | times => "*"
  | divide => "/"
  | plus => "+"
  | minus => "-"
  | greater => ">"
  | less => "<"
  | atLeast => ">="
  | atMost => "<="

/-- An operator between its operands: all but ranges have blanks around their sign. -/
def text : Operator → Text
  | range => ":"
  | op => " " ++ op.sign ++ " "

lemma level_pos (op : Operator) : 0 < op.level := by cases op <;> decide

lemma level_le (op : Operator) : op.level ≤ 4 := by cases op <;> decide

end Operator

/-- A formula as a tree. -/
inductive Term where
  | atom (t : Text)
  | call (callee : Term) (arguments : List Term)
  | infixed (op : Operator) (left right : Term)
deriving Repr

namespace Term

mutual

/-- A term as it is written, without any parentheses around operands. -/
def text : Term → Text
  | atom t => t
  | call f xs => f.text ++ "(" ++ Text.join ", " (texts xs) ++ ")"
  | infixed op l r => l.text ++ op.text ++ r.text

def texts : List Term → List Text
  | [] => []
  | x :: rest => x.text :: texts rest

end

/-- How loosely a term is held together: by its operator, if it has one on the outside. -/
def level : Term → Nat
  | infixed op _ _ => op.level
  | _ => 0

lemma level_le (u : Term) : u.level ≤ 4 := by
  cases u with
  | infixed op l r => exact op.level_le
  | _ => exact Nat.zero_le 4

@[simp] lemma texts_eq_map (xs : List Term) : texts xs = xs.map text := by
  induction xs with
  | nil => rfl
  | cons x rest ih => rw [texts, ih, List.map_cons]

/-- A property holds of every term if it passes from the parts of a term to the term. -/
@[elab_as_elim]
theorem partsInduction {motive : Term → Prop} (atom : ∀ t, motive (.atom t))
    (call : ∀ f xs, motive f → (∀ x ∈ xs, motive x) → motive (.call f xs))
    (infixed : ∀ op l r, motive l → motive r → motive (.infixed op l r)) : ∀ u, motive u
  | .atom t => atom t
  | .call f xs =>
    call f xs (partsInduction atom call infixed f) fun x _ => partsInduction atom call infixed x
  | .infixed op l r =>
    infixed op l r (partsInduction atom call infixed l) (partsInduction atom call infixed r)
termination_by u => sizeOf u
decreasing_by
  · simp only [Term.call.sizeOf_spec]
    omega
  · have := List.sizeOf_lt_of_mem ‹x ∈ xs›
    simp only [Term.call.sizeOf_spec]
    omega
  · simp only [Term.infixed.sizeOf_spec]
    omega
  · simp only [Term.infixed.sizeOf_spec]
    omega

end Term

/-- The bytes of atoms: letters, digits, underscore and point. The bytes above ASCII belong to
letters of other scripts. -/
def isAtomByte (b : UInt8) : Bool :=
  ('a' ≤ b && b ≤ 'z') || ('A' ≤ b && b ≤ 'Z') || Text.isDigit b || b == '_' || b == '.' ||
    0x80 ≤ b

/-- A name or number as formulas have it. -/
def IsAtom (t : Text) : Prop := t ≠ [] ∧ ∀ b ∈ t, isAtomByte b

instance (t : Text) : Decidable (IsAtom t) :=
  decidable_of_iff (t.isEmpty = false ∧ t.all isAtomByte = true) (by simp [IsAtom])

/-- `Reads k t u`: the text `t` is a formula of the term `u`, held together at level `k` or
tighter. -/
inductive Reads : Nat → Text → Term → Prop
  | atom {t : Text} (h : IsAtom t) : Reads 0 t (.atom t)
  | call {t : Text} {f : Term} {parts : List (Text × Term)} (callee : Reads 0 t f)
      (arguments : ∀ p ∈ parts, Reads 4 p.1 p.2) :
      Reads 0 (t ++ "(" ++ Text.join ", " (parts.map (·.1)) ++ ")") (.call f (parts.map (·.2)))
  | infixed (op : Operator) {s t : Text} {l r : Term} (left : Reads op.level s l)
      (right : Reads (op.level - 1) t r) : Reads op.level (s ++ op.text ++ t) (.infixed op l r)
  | looser {k : Nat} {t : Text} {u : Term} (h : Reads k t u) : Reads (k + 1) t u

namespace Term

mutual

/-- Whether every atom of a term is a name or number as formulas have it. -/
def Spelled : Term → Prop
  | atom t => IsAtom t
  | call f xs => f.Spelled ∧ AllSpelled xs
  | infixed _ l r => l.Spelled ∧ r.Spelled

def AllSpelled : List Term → Prop
  | [] => True
  | x :: rest => x.Spelled ∧ AllSpelled rest

end

mutual

/-- Whether every part of a term binds tightly enough for its place: callees are atoms or calls,
left operands bind at least as tightly as their operator, and right operands more tightly. -/
def Grouped : Term → Prop
  | atom _ => True
  | call f xs => f.level = 0 ∧ f.Grouped ∧ AllGrouped xs
  | infixed op l r => l.level ≤ op.level ∧ r.level < op.level ∧ l.Grouped ∧ r.Grouped

def AllGrouped : List Term → Prop
  | [] => True
  | x :: rest => x.Grouped ∧ AllGrouped rest

end

@[simp] lemma allSpelled_iff {xs : List Term} : AllSpelled xs ↔ ∀ x ∈ xs, x.Spelled := by
  induction xs with
  | nil => simp [AllSpelled]
  | cons x rest ih => simp [AllSpelled, ih]

@[simp] lemma allGrouped_iff {xs : List Term} : AllGrouped xs ↔ ∀ x ∈ xs, x.Grouped := by
  induction xs with
  | nil => simp [AllGrouped]
  | cons x rest ih => simp [AllGrouped, ih]

end Term

lemma Reads.of_le {j k : Nat} {t : Text} {u : Term} (h : Reads j t u) (hjk : j ≤ k) :
    Reads k t u := by
  induction hjk with
  | refl => exact h
  | step _ ih => exact .looser ih

/-- What a formula says of its term. -/
lemma Reads.sound {k : Nat} {t : Text} {u : Term} (h : Reads k t u) :
    t = u.text ∧ u.Spelled ∧ u.Grouped ∧ u.level ≤ k := by
  induction h with
  | atom h => exact ⟨rfl, h, trivial, Nat.le_refl 0⟩
  | @call t f parts _ _ ihf ihs =>
    obtain ⟨rfl, hspelled, hgrouped, hlevel⟩ := ihf
    have htexts : parts.map (·.1) = (parts.map (·.2)).map Term.text := by
      rw [List.map_map]
      exact List.map_congr_left fun p hp => (ihs p hp).1
    refine ⟨?_, ⟨hspelled, ?_⟩, ⟨by omega, hgrouped, ?_⟩, Nat.le_refl 0⟩
    · rw [Term.text, Term.texts_eq_map, htexts]
    · rw [Term.allSpelled_iff, List.forall_mem_map]
      exact fun p hp => (ihs p hp).2.1
    · rw [Term.allGrouped_iff, List.forall_mem_map]
      exact fun p hp => (ihs p hp).2.2.1
  | infixed op _ _ ihl ihr =>
    obtain ⟨rfl, hls, hlg, hl⟩ := ihl
    obtain ⟨rfl, hrs, hrg, hr⟩ := ihr
    have hpos := op.level_pos
    exact ⟨rfl, ⟨hls, hrs⟩, ⟨hl, by omega, hlg, hrg⟩, Nat.le_refl _⟩
  | looser _ ih =>
    obtain ⟨htext, hspelled, hgrouped, hlevel⟩ := ih
    exact ⟨htext, hspelled, hgrouped, by omega⟩

/-- The text of a grouped term is a formula of it. -/
lemma Reads.of_grouped {u : Term} (hspelled : u.Spelled) (hgrouped : u.Grouped) :
    Reads u.level u.text u := by
  induction u using Term.partsInduction with
  | atom t => exact .atom hspelled
  | call f xs ihf ihs =>
    obtain ⟨hfs, hxs⟩ := hspelled
    obtain ⟨hlevel, hfg, hxg⟩ := hgrouped
    rw [Term.allSpelled_iff] at hxs
    rw [Term.allGrouped_iff] at hxg
    have hf : Reads 0 f.text f := hlevel ▸ ihf hfs hfg
    have hargs : ∀ p ∈ xs.map (fun x => (x.text, x)), Reads 4 p.1 p.2 := by
      rw [List.forall_mem_map]
      intro x hx
      exact (ihs x hx (hxs x hx) (hxg x hx)).of_le x.level_le
    simpa [Term.text, Term.level, List.map_map, Function.comp_def] using Reads.call hf hargs
  | infixed op l r ihl ihr =>
    obtain ⟨hls, hrs⟩ := hspelled
    obtain ⟨hl, hr, hlg, hrg⟩ := hgrouped
    exact .infixed op ((ihl hls hlg).of_le hl) ((ihr hrs hrg).of_le (by omega))

/-- The formulas of the grammar are the texts of grouped terms. -/
theorem reads_iff {k : Nat} {t : Text} {u : Term} :
    Reads k t u ↔ t = u.text ∧ u.Spelled ∧ u.Grouped ∧ u.level ≤ k := by
  constructor
  · exact Reads.sound
  · rintro ⟨rfl, hspelled, hgrouped, hlevel⟩
    exact (Reads.of_grouped hspelled hgrouped).of_le hlevel

end SheetFormula.Formula
