import Mathlib.Data.List.Sort
import SheetFormula.Proofs.FileTree

/-!
# What a walk comes to

A walk goes from a directory to the names in it and on into every directory that is not hidden. So
it comes to what stands below the directory without a hidden directory on the way, to each place
once and in the order of the locations. In a sound tree that is a selection from the entries.
-/

namespace SheetFormula.FileTree

variable {t t' : FileTree} {dir l : Location} {c d : Text} {e : Entry}

/-! ### The names in a directory -/

lemma mem_insertName {names : List Text} : d ∈ insertName c names ↔ d = c ∨ d ∈ names := by
  induction names with
  | nil => simp [insertName]
  | cons x rest ih =>
    rw [insertName]
    split_ifs with hlt heq
    · exact List.mem_cons
    · simp [heq]
    · rw [List.mem_cons, ih, List.mem_cons]
      exact or_left_comm

lemma pairwise_insertName {names : List Text} (h : names.Pairwise (· < ·)) :
    (insertName c names).Pairwise (· < ·) := by
  induction names with
  | nil => simp [insertName]
  | cons x rest ih =>
    obtain ⟨hx, hrest⟩ := List.pairwise_cons.mp h
    rw [insertName]
    split_ifs with hlt heq
    · refine List.pairwise_cons.mpr ⟨fun y hy => ?_, h⟩
      rcases List.mem_cons.mp hy with rfl | hy
      · exact hlt
      · exact List.lt_trans hlt (hx y hy)
    · exact h
    · refine List.pairwise_cons.mpr ⟨fun y hy => ?_, ih hrest⟩
      rcases mem_insertName.mp hy with rfl | hy
      · by_contra hge
        exact heq (List.le_antisymm (List.not_lt.mp hge) (List.not_lt.mp hlt))
      · exact hx y hy

/-- A name is listed if something stands there. -/
lemma mem_names : c ∈ t.names dir ↔ ∃ e, t.get? (dir ++ [c]) = some e := by
  have hfold : ∀ xs : List Text, c ∈ xs.foldr insertName [] ↔ c ∈ xs := by
    intro xs
    induction xs with
    | nil => rfl
    | cons x rest ih => rw [List.foldr_cons, mem_insertName, ih, List.mem_cons]
  rw [names, hfold, List.mem_filterMap]
  constructor
  · rintro ⟨⟨k, e⟩, hmem, hk⟩
    obtain ⟨hdir, hlast⟩ := Option.ite_none_right_eq_some.mp hk
    obtain ⟨front, rfl⟩ := List.getLast?_eq_some_iff.mp hlast
    rw [List.dropLast_concat] at hdir
    subst hdir
    exact Option.ne_none_iff_exists'.mp (get_of_mem hmem)
  · rintro ⟨e, hget⟩
    exact ⟨_, mem_of_get (by simp) hget, by simp⟩

/-- Names are listed once and in order. -/
lemma pairwise_names (t : FileTree) (dir : Location) : (t.names dir).Pairwise (· < ·) := by
  rw [names]
  generalize List.filterMap _ t.entries = xs
  induction xs with
  | nil => exact .nil
  | cons x rest ih => exact pairwise_insertName ih

/-! ### The places that a walk comes to -/

/-- A walk from a directory comes to a place: a file in it, a directory in it that is not hidden, or
a place that it comes to from such a directory. -/
inductive Sees (t : FileTree) : (dir l : Location) → Entry → Prop
  | file {dir : Location} {c : Text} {e : Entry} (hget : t.get? (dir ++ [c]) = some e)
    (hfile : e ≠ .directory) : Sees t dir [c] e
  | directory {dir : Location} {c : Text} (hget : t.get? (dir ++ [c]) = some .directory)
    (hshown : isHidden c = false) : Sees t dir [c] .directory
  | inside {dir l : Location} {c : Text} {e : Entry}
    (hget : t.get? (dir ++ [c]) = some .directory) (hshown : isHidden c = false)
    (h : Sees t (dir ++ [c]) l e) : Sees t dir (c :: l) e

namespace Sees

lemma ne_nil (h : t.Sees dir l e) : l ≠ [] := by
  cases h <;> simp

lemma get (h : t.Sees dir l e) : t.get? (dir ++ l) = some e := by
  induction h with
  | file hget _ => exact hget
  | directory hget _ => exact hget
  | inside _ _ _ ih => simpa using ih

/-- No directory on the way is hidden, nor is what the way leads to if it is a directory. -/
lemma shown (h : t.Sees dir l e) :
    ∀ c ∈ (if e.isDirectory then l else l.dropLast), isHidden c = false := by
  induction h with
  | @file _ _ e _ hfile => cases e <;> simp_all [Entry.isDirectory]
  | directory _ hshown => simpa [Entry.isDirectory] using hshown
  | @inside _ l c e _ hshown h ih =>
    rw [List.dropLast_cons_of_ne_nil h.ne_nil]
    split_ifs at ih ⊢ <;> exact List.forall_mem_cons.mpr ⟨hshown, ih⟩

/-- A walk in a larger tree comes to the same places, if what stands there is the same. -/
lemma of_extends (h : t.Sees dir l e) (hmore : t.Extends t')
    (hsame : t'.get? (dir ++ l) = t.get? (dir ++ l)) : t'.Sees dir l e := by
  induction h with
  | file hget hfile => exact .file (hsame.trans hget) hfile
  | directory hget hshown => exact .directory (hmore.directory _ hget) hshown
  | inside hget hshown _ ih =>
    exact .inside (hmore.directory _ hget) hshown (ih (by simpa using hsame))

end Sees

/-- In a sound tree the directories on the way are there. -/
lemma Sound.sees_iff (h : t.Sound) :
    t.Sees dir l e ↔ l ≠ [] ∧ t.get? (dir ++ l) = some e ∧
      ∀ c ∈ (if e.isDirectory then l else l.dropLast), isHidden c = false := by
  refine ⟨fun hsees => ⟨hsees.ne_nil, hsees.get, hsees.shown⟩, ?_⟩
  rintro ⟨hne, hget, hshown⟩
  induction l generalizing dir with
  | nil => exact absurd rfl hne
  | cons c rest ih =>
    by_cases hrest : rest = []
    · subst hrest
      by_cases hfile : e = .directory
      · subst hfile
        exact .directory hget (by simpa [Entry.isDirectory] using hshown)
      · exact .file hget hfile
    · rw [List.dropLast_cons_of_ne_nil hrest] at hshown
      obtain ⟨hc, hothers⟩ : isHidden c = false ∧
          ∀ d ∈ (if e.isDirectory then rest else rest.dropLast), isHidden d = false := by
        split_ifs at hshown ⊢ <;> exact List.forall_mem_cons.mp hshown
      have hget' : t.get? ((dir ++ [c]) ++ rest) = some e := by simpa using hget
      exact .inside (h.above hrest hget') hc (ih hrest hget' hothers)

/-! ### The walk -/

section Visit

variable {goOn : Location → List (Location × Entry)}

/-- A visit comes to a file, or to a directory that is not hidden and to what is found from there. -/
lemma mem_visit :
    (l, e) ∈ t.visit goOn dir c ↔
      l = [c] ∧ t.get? (dir ++ [c]) = some e ∧ (e = .directory → isHidden c = false) ∨
      ∃ rest, l = c :: rest ∧ t.get? (dir ++ [c]) = some .directory ∧ isHidden c = false ∧
        (rest, e) ∈ goOn (dir ++ [c]) := by
  rw [visit]
  split
  · rename_i hget
    simp [hget]
  · rename_i hget
    split_ifs with hhidden
    · simp_all
    · have hshown : isHidden c = false := Bool.eq_false_iff.mpr hhidden
      simp [hget, hshown, eq_comm, and_comm]
  · rename_i e' hfile hget
    constructor
    · intro h
      cases List.mem_singleton.mp h
      exact .inl ⟨rfl, hget, fun he => absurd he hfile⟩
    · rintro (⟨rfl, hget', -⟩ | ⟨rest, -, hget', -⟩)
      · obtain rfl := Option.some.inj (hget.symm.trans hget')
        exact List.mem_singleton_self _
      · exact absurd (Option.some.inj (hget.symm.trans hget')) hfile

/-- What a visit comes to starts with the name. -/
lemma exists_of_mem_visit {x : Location × Entry} (h : x ∈ t.visit goOn dir c) :
    ∃ rest, x.1 = c :: rest := by
  rcases mem_visit.mp h with ⟨hl, -⟩ | ⟨rest, hl, -⟩
  · exact ⟨[], hl⟩
  · exact ⟨rest, hl⟩

lemma pairwise_visit (hgoOn : (goOn (dir ++ [c])).Pairwise fun a b => a.1 < b.1)
    (hne : ∀ x ∈ goOn (dir ++ [c]), x.1 ≠ []) :
    (t.visit goOn dir c).Pairwise fun a b => a.1 < b.1 := by
  rw [visit]
  split
  · exact .nil
  · split_ifs
    · exact .nil
    · refine List.pairwise_cons.mpr ⟨fun x hx => ?_, List.pairwise_map.mpr ?_⟩
      · obtain ⟨⟨rest, e⟩, hrest, rfl⟩ := List.mem_map.mp hx
        obtain ⟨d, rest, rfl⟩ := List.exists_cons_of_ne_nil (hne _ hrest)
        exact List.cons_lt_cons_iff.mpr (.inr ⟨rfl, List.nil_lt_cons d rest⟩)
      · exact hgoOn.imp fun hlt => List.cons_lt_cons_iff.mpr (.inr ⟨rfl, hlt⟩)
  · exact List.pairwise_singleton _ _

end Visit

/-- A walk to some depth comes to the places that are no deeper. -/
lemma mem_walk {depth : Nat} :
    (l, e) ∈ t.walk depth dir ↔ l.length ≤ depth ∧ t.Sees dir l e := by
  induction depth generalizing dir l with
  | zero =>
    constructor
    · intro h
      cases h
    · rintro ⟨hlength, hsees⟩
      exact absurd (List.length_eq_zero_iff.mp (Nat.le_zero.mp hlength)) hsees.ne_nil
  | succ depth ih =>
    rw [walk, List.mem_flatMap]
    constructor
    · rintro ⟨c, -, hmem⟩
      rcases mem_visit.mp hmem with ⟨rfl, hget, hshown⟩ | ⟨rest, rfl, hget, hshown, hrest⟩
      · refine ⟨by simp, ?_⟩
        by_cases he : e = .directory
        · subst he
          exact .directory hget (hshown rfl)
        · exact .file hget he
      · obtain ⟨hlength, hsees⟩ := ih.mp hrest
        exact ⟨Nat.succ_le_succ hlength, .inside hget hshown hsees⟩
    · rintro ⟨hlength, hsees⟩
      cases hsees with
      | @file _ c _ hget hfile =>
        have hmem : ([c], e) ∈ t.visit (t.walk depth) dir c :=
          mem_visit.mpr (.inl ⟨rfl, hget, fun he => absurd he hfile⟩)
        exact ⟨c, mem_names.mpr ⟨e, hget⟩, hmem⟩
      | @directory _ c hget hshown =>
        exact ⟨c, mem_names.mpr ⟨_, hget⟩, mem_visit.mpr (.inl ⟨rfl, hget, fun _ => hshown⟩)⟩
      | @inside _ rest c _ hget hshown hsees =>
        have hmem := ih.mpr ⟨Nat.le_of_succ_le_succ hlength, hsees⟩
        exact ⟨c, mem_names.mpr ⟨_, hget⟩, mem_visit.mpr (.inr ⟨rest, rfl, hget, hshown, hmem⟩)⟩

/-- A walk comes to its places in the order of their locations. -/
lemma pairwise_walk (t : FileTree) (depth : Nat) (dir : Location) :
    (t.walk depth dir).Pairwise fun a b => a.1 < b.1 := by
  induction depth generalizing dir with
  | zero => exact .nil
  | succ depth ih =>
    rw [walk, List.pairwise_flatMap]
    constructor
    · intro c _
      exact pairwise_visit (ih (dir ++ [c])) fun x hx => (mem_walk.mp hx).2.ne_nil
    · refine (t.pairwise_names dir).imp fun hlt x hx y hy => ?_
      obtain ⟨rest, hx⟩ := exists_of_mem_visit hx
      obtain ⟨rest', hy⟩ := exists_of_mem_visit hy
      rw [hx, hy]
      exact List.cons_lt_cons_iff.mpr (.inl hlt)

lemma length_le_depth (h : (l, e) ∈ t.entries) : l.length ≤ t.depth := by
  rw [depth]
  generalize t.entries = entries at h
  induction entries with
  | nil => cases h
  | cons x rest ih =>
    rw [List.foldr_cons]
    rcases List.mem_cons.mp h with rfl | h
    · exact Nat.le_max_left _ _
    · exact (ih h).trans (Nat.le_max_right _ _)

/-- What is visible from a directory is what a walk comes to, however deep. -/
lemma mem_visible : (l, e) ∈ t.visible dir ↔ t.Sees dir l e := by
  rw [visible, mem_walk, and_iff_right_iff_imp]
  intro h
  have hentry : (dir ++ l, e) ∈ t.entries := mem_of_get (by simp [h.ne_nil]) h.get
  have hlength := length_le_depth hentry
  rw [List.length_append] at hlength
  omega

lemma pairwise_visible (t : FileTree) (dir : Location) :
    (t.visible dir).Pairwise fun a b => a.1 < b.1 :=
  t.pairwise_walk t.depth dir

/-- A list in the order of the locations is determined by its members. -/
lemma eq_of_mem_iff {xs ys : List (Location × Entry)} (hxs : xs.Pairwise fun a b => a.1 < b.1)
    (hys : ys.Pairwise fun a b => a.1 < b.1) (hmem : ∀ x, x ∈ xs ↔ x ∈ ys) : xs = ys := by
  have : Std.Irrefl fun a b : Location × Entry => a.1 < b.1 := ⟨fun a => List.lt_irrefl a.1⟩
  have : Std.Antisymm fun a b : Location × Entry => a.1 < b.1 :=
    ⟨fun a b hab hba => absurd hba (List.lt_asymm hab)⟩
  exact hxs.eq_of_mem_iff hys hmem

/-- Walks in two trees agree on what has a property, if they come to the same of it. -/
lemma filter_visible_congr {p : Location × Entry → Bool}
    (h : ∀ l e, p (l, e) = true → (t'.Sees dir l e ↔ t.Sees dir l e)) :
    (t'.visible dir).filter p = (t.visible dir).filter p := by
  refine eq_of_mem_iff ((t'.pairwise_visible dir).filter p) ((t.pairwise_visible dir).filter p) ?_
  rintro ⟨l, e⟩
  rw [List.mem_filter, List.mem_filter, mem_visible, mem_visible]
  exact and_congr_left fun hp => h l e hp

/-! ### The closed form of a walk -/

lemma le_trans_location (a b c : Location) (hab : Location.le a b = true)
    (hbc : Location.le b c = true) : Location.le a c = true := by
  induction a generalizing b c with
  | nil => rfl
  | cons x a ih =>
    rcases b with _ | ⟨y, b⟩
    · cases hab
    rcases c with _ | ⟨z, c⟩
    · cases hbc
    simp only [Location.le] at hab hbc ⊢
    by_cases hxy : x = y
    · subst hxy
      by_cases hxz : x = z
      · rw [if_pos rfl] at hab
        rw [if_pos hxz] at hbc ⊢
        exact ih b c hab hbc
      · rwa [if_neg hxz] at hbc ⊢
    · by_cases hyz : y = z
      · subst hyz
        rwa [if_neg hxy] at hab ⊢
      · rw [if_neg hxy, decide_eq_true_iff] at hab
        rw [if_neg hyz, decide_eq_true_iff] at hbc
        by_cases hxz : x = z
        · subst hxz
          exact absurd (List.le_antisymm hab hbc) hxy
        · rw [if_neg hxz, decide_eq_true_iff]
          exact List.le_trans hab hbc

lemma le_total_location (a b : Location) : (Location.le a b || Location.le b a) = true := by
  induction a generalizing b with
  | nil => rfl
  | cons x a ih =>
    rcases b with _ | ⟨y, b⟩
    · rfl
    simp only [Location.le]
    by_cases hxy : x = y
    · simpa [hxy] using ih b
    · simpa [hxy, Ne.symm hxy] using List.le_total x y

/-- Different locations in order are in order component by component. -/
lemma lt_of_le_location {a b : Location} (hle : Location.le a b = true) (hne : a ≠ b) : a < b := by
  induction a generalizing b with
  | nil =>
    cases b with
    | nil => exact absurd rfl hne
    | cons y b => exact List.nil_lt_cons y b
  | cons x a ih =>
    cases b with
    | nil => cases hle
    | cons y b =>
      rw [List.cons_lt_cons_iff]
      rw [Location.le] at hle
      by_cases hxy : x = y
      · rw [if_pos hxy] at hle
        exact .inr ⟨hxy, ih hle fun hab => hne (by rw [hxy, hab])⟩
      · rw [if_neg hxy, decide_eq_true_iff] at hle
        left
        by_contra hlt
        exact hxy (List.le_antisymm hle (List.not_lt.mp hlt))

/-- An entry with its location relative to a directory, if it is in the directory. -/
def inside (dir : Location) (x : Location × Entry) : Option (Location × Entry) :=
  match relative? dir x.1 with
  | some [] | none => none
  | some names => some (names, x.2)

lemma relative_eq_some {dir l names : Location} :
    relative? dir l = some names ↔ l = dir ++ names := by
  induction dir generalizing l with
  | nil => simp [relative?]
  | cons c dir ih =>
    cases l with
    | nil => simp [relative?]
    | cons d l =>
      rw [relative?]
      by_cases hcd : c = d
      · simp [hcd, ih]
      · simp [hcd, Ne.symm hcd]

lemma inside_eq_some {dir : Location} {x y : Location × Entry} :
    inside dir x = some y ↔ y.1 ≠ [] ∧ x = (dir ++ y.1, y.2) := by
  obtain ⟨l, e⟩ := x
  obtain ⟨names, e'⟩ := y
  simp only [inside, Prod.mk.injEq]
  rw [← relative_eq_some]
  cases hrelative : relative? dir l with
  | none => simp
  | some rest =>
    cases rest with
    | nil => simp +contextual [eq_comm]
    | cons c rest => simp +contextual [eq_comm]

/-- With one entry for each place, the entries are what stands in the places. -/
lemma get_eq_of_mem (hdistinct : (t.entries.map Prod.fst).Nodup) (hl : l ≠ [])
    (h : (l, e) ∈ t.entries) : t.get? l = some e := by
  rw [get?, if_neg (by simpa using hl), List.lookup_eq_some_iff]
  obtain ⟨before, after, hentries⟩ := List.append_of_mem h
  refine ⟨before, after, hentries, fun y hy => ?_⟩
  rw [hentries, List.map_append, List.map_cons, List.nodup_append] at hdistinct
  have hne := hdistinct.2.2 y.1 (List.mem_map_of_mem hy) l List.mem_cons_self
  simpa using Ne.symm hne

lemma below_eq (t : FileTree) (dir : Location) :
    t.below dir = (t.entries.filterMap (inside dir)).mergeSort fun a b => Location.le a.1 b.1 :=
  rfl

lemma mem_below (hdistinct : (t.entries.map Prod.fst).Nodup) :
    (l, e) ∈ t.below dir ↔ l ≠ [] ∧ t.get? (dir ++ l) = some e := by
  rw [below_eq, List.mem_mergeSort, List.mem_filterMap]
  simp only [inside_eq_some]
  constructor
  · rintro ⟨x, hx, hl, rfl⟩
    exact ⟨hl, get_eq_of_mem hdistinct (by simp [hl]) hx⟩
  · rintro ⟨hl, hget⟩
    exact ⟨_, mem_of_get (by simp [hl]) hget, hl, rfl⟩

lemma pairwise_below (hdistinct : (t.entries.map Prod.fst).Nodup) (dir : Location) :
    (t.below dir).Pairwise fun a b => a.1 < b.1 := by
  have hsorted : (t.below dir).Pairwise fun a b => Location.le a.1 b.1 = true := by
    rw [below_eq]
    exact List.pairwise_mergeSort (fun a b c => le_trans_location a.1 b.1 c.1)
      (fun a b => le_total_location a.1 b.1) _
  have hplaces : (t.below dir).Pairwise fun a b => a.1 ≠ b.1 := by
    rw [below_eq, (List.mergeSort_perm _ _).pairwise_iff fun hab => hab.symm]
    refine (List.pairwise_map.mp hdistinct).filterMap (inside dir) ?_
    intro x y hxy a ha b hb hab
    obtain ⟨-, rfl⟩ := inside_eq_some.mp ha
    obtain ⟨-, rfl⟩ := inside_eq_some.mp hb
    exact hxy (by rw [hab])
  exact hsorted.imp₂ (fun _ _ hle hne => lt_of_le_location hle hne) hplaces

/-- In a sound tree with one entry for each place, a walk is a selection from the entries: those
below the directory, in order, without what is hidden. -/
theorem visible_eq_filter_below (h : t.Sound) (hdistinct : (t.entries.map Prod.fst).Nodup)
    (dir : Location) :
    t.visible dir = (t.below dir).filter fun x =>
      !(if x.2.isDirectory then x.1 else x.1.dropLast).any isHidden := by
  refine eq_of_mem_iff (t.pairwise_visible dir) ((pairwise_below hdistinct dir).filter _) ?_
  rintro ⟨l, e⟩
  rw [mem_visible, h.sees_iff, List.mem_filter, mem_below hdistinct, and_assoc]
  simp

end SheetFormula.FileTree
