import SheetFormula.Proofs.FileTree

/-!
# Trees that grow

The program changes a file tree in two ways: it makes directories where nothing is, and it writes
files in places where no directory is. So directories stay, and what stands in any other place is as
it was.
-/

namespace SheetFormula.FileTree

open SheetFormula.Path

variable {made written : List Location} {t t' t'' : FileTree} {p : Text} {l : Location}

/-- A tree that comes from another one by making directories and writing files, step by step and in
some places only. -/
inductive Grows (made written : List Location) (t : FileTree) : FileTree → Prop
  | refl : Grows made written t t
  | make {t' : FileTree} {l : Location} (h : Grows made written t t') (hl : l ∈ made)
    (hfree : t'.get? l = none) : Grows made written t (t'.put l .directory)
  | write {t' : FileTree} {l : Location} {e : Entry} (h : Grows made written t t')
    (hl : l ∈ written) (hplace : t'.get? l ≠ some .directory) (hfile : e ≠ .directory) :
    Grows made written t (t'.put l e)

/-- Trees differ only in directories that have been made where nothing was, and in files, each of
them in some places. -/
def ChangedOnly (made written : List Location) (t t' : FileTree) : Prop :=
  ∀ l, t'.get? l = t.get? l ∨
    l ∈ made ∧ t.get? l = none ∧ t'.get? l = some .directory ∨
    l ∈ written ∧ t.get? l ≠ some .directory ∧ ∃ e, e ≠ .directory ∧ t'.get? l = some e

namespace Grows

lemma trans (h : t.Grows made written t') (h' : t'.Grows made written t'') :
    t.Grows made written t'' := by
  induction h' with
  | refl => exact h
  | make _ hl hfree ih => exact .make ih hl hfree
  | write _ hl hplace hfile ih => exact .write ih hl hplace hfile

lemma mono {made' written' : List Location} (h : t.Grows made written t') (hmade : made ⊆ made')
    (hwritten : written ⊆ written') : t.Grows made' written' t' := by
  induction h with
  | refl => exact .refl
  | make _ hl hfree ih => exact .make ih (hmade hl) hfree
  | write _ hl hplace hfile ih => exact .write ih (hwritten hl) hplace hfile

/-- No directory goes away. -/
lemma toExtends (h : t.Grows made written t') : t.Extends t' := by
  induction h with
  | refl => exact .refl t
  | @make mid l _ _ hfree ih =>
    have hne : l ≠ [] := ne_nil_of_get (t := mid) (by simp [hfree])
    exact ih.trans (extends_put hne (.inl rfl))
  | write _ _ hplace _ ih => exact ih.trans (extends_put (ne_nil_of_get hplace) (.inr hplace))

lemma changedOnly (h : t.Grows made written t') : t.ChangedOnly made written t' := by
  intro k
  induction h with
  | refl => exact .inl rfl
  | @make mid l _ hl hfree ih =>
    have hne : l ≠ [] := ne_nil_of_get (t := mid) (by simp [hfree])
    rw [get_put hne]
    split_ifs with hk
    · subst hk
      -- What is nowhere now has never been there.
      rcases ih with hsame | ⟨-, -, hthere⟩ | ⟨-, -, e, -, hthere⟩
      · exact .inr (.inl ⟨hl, hsame.symm.trans hfree, rfl⟩)
      · simp [hfree] at hthere
      · simp [hfree] at hthere
    · exact ih
  | @write mid l e _ hl hplace hfile ih =>
    rw [get_put (ne_nil_of_get hplace)]
    split_ifs with hk
    · subst hk
      refine .inr (.inr ⟨hl, ?_, e, hfile, rfl⟩)
      rcases ih with hsame | ⟨-, -, hthere⟩ | ⟨-, hbefore, -⟩
      · rwa [← hsame]
      · exact absurd hthere hplace
      · exact hbefore
    · exact ih

/-- A file stays a file. -/
lemma file (h : t.Grows made written t') {e : Entry} (he : e ≠ .directory)
    (hl : t.get? l = some e) : ∃ e', e' ≠ .directory ∧ t'.get? l = some e' := by
  rcases h.changedOnly l with hsame | ⟨-, hnone, -⟩ | ⟨-, -, hthere⟩
  · exact ⟨e, he, hsame.trans hl⟩
  · rw [hl] at hnone
    cases hnone
  · exact hthere

end Grows

/-! ### What makes a tree grow -/

/-- The tree that making directories comes to, whether or not all of them can be made. -/
def reached : Except (FileError × FileTree) FileTree → FileTree
  | .ok t => t
  | .error (_, t) => t

lemma reached_of_ok (h : t.makeDirectory p = .ok t') : reached (t.makeDirectory p) = t' := by
  rw [h]
  rfl

lemma reached_of_error {e : FileError} (h : t.makeDirectory p = .error (e, t')) :
    reached (t.makeDirectory p) = t' := by
  rw [h]
  rfl

lemma grows_makeEach (qs : List Text) (hmade : qs.map (resolve t.here) ⊆ made) :
    t.Grows made written (reached (t.makeEach qs)) := by
  induction qs generalizing t with
  | nil => exact .refl
  | cons q rest ih =>
    obtain ⟨hq, hmade⟩ := List.cons_subset.mp hmade
    rw [makeEach]
    cases hmake : t.makeOne q with
    | error e => exact .refl
    | ok mid =>
      have hfirst : t.Grows made written mid := by
        obtain ⟨l, hl, hcase⟩ := makeOne_eq_ok.mp hmake
        obtain ⟨-, -, rfl⟩ := locate_eq_ok.mp hl
        rcases hcase with ⟨hfree, rfl⟩ | ⟨-, rfl⟩
        · exact .make .refl hq hfree
        · exact .refl
      refine hfirst.trans (ih ?_)
      rwa [hfirst.toExtends.here]

/-- Making a directory makes some of those on the way, and all of them unless it fails. -/
lemma grows_makeDirectory (p : Text) (hmade : chain t.here p ⊆ made) :
    t.Grows made written (reached (t.makeDirectory p)) :=
  grows_makeEach (onTheWay p) hmade

/-- What making a directory does at a place, if anything: there is a directory now. -/
lemma get_reached (t : FileTree) (p : Text) (l : Location) :
    (reached (t.makeDirectory p)).get? l = t.get? l ∨
      l ∈ chain t.here p ∧ t.get? l = none ∧
        (reached (t.makeDirectory p)).get? l = some .directory := by
  have hgrows : t.Grows (chain t.here p) [] (reached (t.makeDirectory p)) :=
    grows_makeDirectory p (List.Subset.refl _)
  rcases hgrows.changedOnly l with hsame | hmade | ⟨hwritten, -⟩
  · exact .inl hsame
  · exact .inr hmade
  · cases hwritten

lemma extends_reached (t : FileTree) (p : Text) : t.Extends (reached (t.makeDirectory p)) := by
  have hgrows : t.Grows (chain t.here p) [] (reached (t.makeDirectory p)) :=
    grows_makeDirectory p (List.Subset.refl _)
  exact hgrows.toExtends

lemma grows_write {content : Text} (h : t.write p content = .ok t')
    (hwritten : resolve t.here p ∈ written) : t.Grows made written t' := by
  obtain ⟨l, hl, hplace, rfl⟩ := write_eq_ok.mp h
  obtain ⟨-, -, rfl⟩ := locate_eq_ok.mp hl
  exact .write .refl hwritten hplace (by simp)

end SheetFormula.FileTree
