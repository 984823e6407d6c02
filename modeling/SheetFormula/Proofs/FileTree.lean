import SheetFormula.Proofs.Path
import SheetFormula.Proofs.Result

/-!
# What operations do to a file tree

A path can be followed if everything on the way to its place is a directory. Making directories and
writing files changes the tree at the places of their paths only, and no directory ever goes away.
-/

namespace SheetFormula.FileTree

open SheetFormula.Path

variable {t t' : FileTree} {p : Text} {k l : Location}

/-! ### Looking and putting -/

@[simp] lemma get_nil (t : FileTree) : t.get? [] = some .directory := rfl

@[simp] lemma here_put (t : FileTree) (l : Location) (e : Entry) : (t.put l e).here = t.here := rfl

lemma lookup_filter_ne {entries : List (Location × Entry)} (h : k ≠ l) :
    (entries.filter (·.1 ≠ l)).lookup k = entries.lookup k := by
  induction entries with
  | nil => rfl
  | cons x rest ih =>
    obtain ⟨at', e⟩ := x
    by_cases hx : at' = l
    · have hk : (k == at') = false := by simpa [hx] using h
      rw [List.filter_cons_of_neg (by simpa using hx), List.lookup_cons, hk, ih]
    · rw [List.filter_cons_of_pos (by simpa using hx), List.lookup_cons, List.lookup_cons, ih]

lemma get_put (hl : l ≠ []) (e : Entry) (k : Location) :
    (t.put l e).get? k = if k = l then some e else t.get? k := by
  cases k with
  | nil =>
    rw [if_neg (Ne.symm hl)]
    rfl
  | cons c k =>
    change List.lookup (c :: k) ((l, e) :: t.entries.filter (·.1 ≠ l)) = _
    rw [List.lookup_cons]
    by_cases h : c :: k = l
    · rw [if_pos h, beq_iff_eq.mpr h]
    · have hne : (c :: k == l) = false := by simpa using h
      rw [if_neg h, hne, lookup_filter_ne h]
      rfl

lemma ne_nil_of_get (h : t.get? l ≠ some .directory) : l ≠ [] := by
  rintro rfl
  exact h rfl

lemma get_of_mem {x : Location × Entry} (hx : x ∈ t.entries) : t.get? x.1 ≠ none := by
  rw [get?]
  split_ifs
  · simp
  · intro hnone
    rw [List.lookup_eq_none_iff] at hnone
    exact absurd (hnone x hx) (by simp)

lemma mem_of_get {e : Entry} (hl : l ≠ []) (h : t.get? l = some e) : (l, e) ∈ t.entries := by
  rw [get?, if_neg (by simpa using hl)] at h
  obtain ⟨before, after, hentries, -⟩ := List.lookup_eq_some_iff.mp h
  simp [hentries]

/-! ### Following a path -/

/-- A path that the file system takes: not empty, without zero bytes, and of short components. -/
def Usable (p : Text) : Prop :=
  0 ∉ p ∧ p ≠ [] ∧ ∀ c ∈ Text.splitOn slash p, c.length ≤ maxName

lemma step_of_directory {c : Text} (h : t.get? l = some .directory) (hc : c.length ≤ maxName) :
    t.step l c = .ok (follow l c) := by
  rw [step, h, follow]
  simp only
  split_ifs with hstay hup hlong
  · rfl
  · rfl
  · omega
  · rfl

/-- A component is followed from a directory, if it is not too long. -/
lemma step_eq_ok {c : Text} :
    t.step l c = .ok k ↔
      c.length ≤ maxName ∧ t.get? l = some .directory ∧ follow l c = k := by
  constructor
  · intro h
    have hdirectory : t.get? l = some .directory := by
      rw [step] at h
      split at h
      · cases h
      · assumption
      · cases h
    have hc : c.length ≤ maxName := by
      rw [step, hdirectory] at h
      simp only at h
      split_ifs at h with hstay hup hlong
      · simp only [Bool.or_eq_true, decide_eq_true_eq] at hstay
        rcases hstay with rfl | rfl <;> decide
      · subst hup
        decide
      · omega
    rw [step_of_directory hdirectory hc] at h
    exact ⟨hc, hdirectory, Except.ok.inj h⟩
  · rintro ⟨hc, hdirectory, rfl⟩
    exact step_of_directory hdirectory hc

lemma foldlM_step_eq_ok {cs : List Text} :
    cs.foldlM t.step l = .ok k ↔
      (∀ c ∈ cs, c.length ≤ maxName) ∧ (∀ x ∈ wayFrom l cs, t.get? x = some .directory) ∧
        cs.foldl follow l = k := by
  induction cs generalizing l with
  | nil =>
    rw [List.foldlM_nil, Result.pure_eq_ok]
    simp [wayFrom]
  | cons c rest ih =>
    rw [List.foldlM_cons, Result.bind_eq_ok, wayFrom, List.forall_mem_cons, List.forall_mem_cons]
    constructor
    · rintro ⟨mid, hstep, hrest⟩
      obtain ⟨hc, hdirectory, rfl⟩ := step_eq_ok.mp hstep
      obtain ⟨hcs, hway, hk⟩ := ih.mp hrest
      exact ⟨⟨hc, hcs⟩, ⟨hdirectory, hway⟩, hk⟩
    · rintro ⟨⟨hc, hcs⟩, ⟨hdirectory, hway⟩, hk⟩
      exact ⟨_, step_of_directory hdirectory hc, ih.mpr ⟨hcs, hway, hk⟩⟩

/-- A path can be followed if it is usable and all on the way are directories. -/
lemma locate_eq_ok :
    t.locate p = .ok l ↔
      Usable p ∧ (∀ x ∈ way t.here p, t.get? x = some .directory) ∧ resolve t.here p = l := by
  have hzero : List.elem 0 p = true ↔ 0 ∈ p := List.elem_iff
  rw [locate]
  by_cases hinvalid : 0 ∈ p
  · rw [if_pos (hzero.mpr hinvalid)]
    simp [Usable, hinvalid]
  by_cases hempty : p = []
  · rw [if_neg (mt hzero.mp hinvalid), if_pos (List.isEmpty_iff.mpr hempty)]
    simp [Usable, hempty]
  rw [if_neg (mt hzero.mp hinvalid), if_neg (mt List.isEmpty_iff.mp hempty), foldlM_step_eq_ok]
  constructor
  · rintro ⟨hcs, hway, hk⟩
    exact ⟨⟨hinvalid, hempty, hcs⟩, hway, hk⟩
  · rintro ⟨⟨-, -, hcs⟩, hway, hk⟩
    exact ⟨hcs, hway, hk⟩

lemma foldlM_step_of_clear {cs : List Text} (hcs : ∀ c ∈ cs, c.length ≤ maxName)
    (h : ∀ x ∈ wayFrom l cs, t.get? x = some .directory ∨ t.get? x = none) :
    cs.foldlM t.step l = .ok (cs.foldl follow l) ∨ cs.foldlM t.step l = .error .missing := by
  induction cs generalizing l with
  | nil => exact .inl rfl
  | cons c rest ih =>
    obtain ⟨hc, hrest⟩ := List.forall_mem_cons.mp hcs
    obtain ⟨hl, hway⟩ := List.forall_mem_cons.mp h
    rw [List.foldlM_cons]
    rcases hl with hl | hl
    · rw [step_of_directory hl hc]
      exact ih hrest hway
    · have hstep : t.step l c = .error .missing := by rw [step, hl]
      rw [hstep]
      exact .inr rfl

/-- Where nothing but directories is in the way, a path can be followed or something is missing. -/
lemma locate_of_clear (hp : Usable p)
    (h : ∀ x ∈ way t.here p, t.get? x = some .directory ∨ t.get? x = none) :
    t.locate p = .ok (resolve t.here p) ∨ t.locate p = .error .missing := by
  obtain ⟨hzero, hne, hcs⟩ := hp
  have hinvalid : ¬ List.elem 0 p = true := fun h => hzero (List.elem_iff.mp h)
  rw [locate, if_neg hinvalid, if_neg (by simpa using hne)]
  exact foldlM_step_of_clear hcs h

/-! ### Trees with more directories -/

/-- A tree that starts from the same directory and has at least the same directories. -/
structure Extends (t t' : FileTree) : Prop where
  here : t'.here = t.here
  directory : ∀ l, t.get? l = some .directory → t'.get? l = some .directory

lemma Extends.refl (t : FileTree) : t.Extends t := ⟨rfl, fun _ h => h⟩

lemma Extends.trans {t'' : FileTree} (h : t.Extends t') (h' : t'.Extends t'') : t.Extends t'' :=
  ⟨h'.here.trans h.here, fun l hl => h'.directory l (h.directory l hl)⟩

/-- What can be followed stays so when directories are added. -/
lemma Extends.locate (h : t.Extends t') (hl : t.locate p = .ok l) : t'.locate p = .ok l := by
  obtain ⟨hp, hway, rfl⟩ := locate_eq_ok.mp hl
  rw [← h.here] at hway ⊢
  exact locate_eq_ok.mpr ⟨hp, fun x hx => h.directory x (hway x hx), rfl⟩

/-- Putting something where no directory is, or a directory, takes no directory away. -/
lemma extends_put {e : Entry} (hl : l ≠ []) (h : e = .directory ∨ t.get? l ≠ some .directory) :
    t.Extends (t.put l e) := by
  refine ⟨rfl, fun k hk => ?_⟩
  rw [get_put hl]
  split_ifs with heq
  · subst heq
    rcases h with rfl | h
    · rfl
    · exact absurd hk h
  · exact hk

/-! ### Writing a file -/

lemma write_eq_ok {content : Text} :
    t.write p content = .ok t' ↔
      ∃ l, t.locate p = .ok l ∧ t.get? l ≠ some .directory ∧ t' = t.put l (.file content) := by
  rw [write]
  cases hl : t.locate p with
  | error fault => simp
  | ok l =>
    simp only [Except.ok.injEq, exists_eq_left']
    split
    · rename_i hdirectory
      simp [hdirectory]
    · rename_i hother
      have hne : t.get? l ≠ some .directory := fun h => hother h
      simp only [Except.ok.injEq]
      constructor
      · rintro rfl
        exact ⟨hne, rfl⟩
      · rintro ⟨-, rfl⟩
        rfl

/-! ### Making directories -/

lemma makeOne_eq_ok :
    t.makeOne p = .ok t' ↔
      ∃ l, t.locate p = .ok l ∧
        (t.get? l = none ∧ t' = t.put l .directory ∨ t.get? l = some .directory ∧ t' = t) := by
  rw [makeOne]
  cases hl : t.locate p with
  | error fault => simp
  | ok l =>
    simp only [Except.ok.injEq, exists_eq_left']
    cases he : t.get? l with
    | none => simp [eq_comm]
    | some e => cases e <;> simp [eq_comm]

/-- Making a directory changes the tree at its place only, which was free or a directory before. -/
lemma get_makeOne (h : t.makeOne p = .ok t') :
    t'.here = t.here ∧
      (∀ k, t'.get? k = if k = resolve t.here p then some .directory else t.get? k) ∧
      (t.get? (resolve t.here p) = none ∨ t.get? (resolve t.here p) = some .directory) := by
  obtain ⟨l, hl, hcase⟩ := makeOne_eq_ok.mp h
  obtain ⟨-, -, rfl⟩ := locate_eq_ok.mp hl
  rcases hcase with ⟨hfree, rfl⟩ | ⟨hdirectory, rfl⟩
  · have hne : resolve t.here p ≠ [] := ne_nil_of_get (t := t) (by simp [hfree])
    exact ⟨rfl, get_put hne .directory, .inl hfree⟩
  · refine ⟨rfl, fun k => ?_, .inr hdirectory⟩
    split_ifs with hk
    · rw [hk, hdirectory]
    · rfl

lemma makeEach_cons_eq_ok {q : Text} {qs : List Text} :
    t.makeEach (q :: qs) = .ok t' ↔ ∃ mid, t.makeOne q = .ok mid ∧ mid.makeEach qs = .ok t' := by
  rw [makeEach]
  cases t.makeOne q <;> simp

/-- Making several directories does so at all their places. -/
lemma get_makeEach {qs : List Text} (h : t.makeEach qs = .ok t') :
    t'.here = t.here ∧
      (∀ k, t'.get? k = if k ∈ qs.map (resolve t.here) then some .directory else t.get? k) ∧
      ∀ k ∈ qs.map (resolve t.here), t.get? k = none ∨ t.get? k = some .directory := by
  induction qs generalizing t with
  | nil =>
    obtain rfl := Except.ok.inj h
    simp
  | cons q rest ih =>
    obtain ⟨mid, hmake, hrest⟩ := makeEach_cons_eq_ok.mp h
    obtain ⟨hhere, hget, hfirst⟩ := get_makeOne hmake
    obtain ⟨hhere', hget', hothers⟩ := ih hrest
    rw [hhere] at hget' hothers
    refine ⟨hhere'.trans hhere, fun k => ?_, ?_⟩
    · rw [hget' k, hget k, List.map_cons]
      by_cases hk : k ∈ rest.map (resolve t.here)
      · rw [if_pos hk, if_pos (List.mem_cons_of_mem _ hk)]
      · simp only [List.mem_cons, hk, or_false, if_false]
    · intro k hk
      rcases List.mem_cons.mp hk with rfl | hk
      · exact hfirst
      · have hmid := hothers k hk
        rw [hget k] at hmid
        by_cases heq : k = resolve t.here q
        · rw [heq]
          exact hfirst
        · rwa [if_neg heq] at hmid

/-- Making a directory makes those on the way and leaves all else. -/
lemma get_makeDirectory (h : t.makeDirectory p = .ok t') (k : Location) :
    t'.get? k = if k ∈ chain t.here p then some .directory else t.get? k :=
  (get_makeEach h).2.1 k

lemma free_of_makeDirectory (h : t.makeDirectory p = .ok t') (hk : k ∈ chain t.here p) :
    t.get? k = none ∨ t.get? k = some .directory :=
  (get_makeEach h).2.2 k hk

lemma extends_makeDirectory (h : t.makeDirectory p = .ok t') : t.Extends t' := by
  refine ⟨(get_makeEach h).1, fun k hk => ?_⟩
  rw [get_makeDirectory h k]
  split_ifs
  · rfl
  · exact hk

lemma makeEach_of_extends {qs : List Text} {s s' : FileTree}
    (h : s.makeEach qs = .ok s') (hmore : s.Extends t)
    (hfree : ∀ k ∈ qs.map (resolve s.here), t.get? k = none ∨ t.get? k = some .directory) :
    ∃ t', t.makeEach qs = .ok t' := by
  induction qs generalizing s t with
  | nil => exact ⟨t, rfl⟩
  | cons q rest ih =>
    obtain ⟨mid, hmake, hrest⟩ := makeEach_cons_eq_ok.mp h
    obtain ⟨hhere, hget, -⟩ := get_makeOne hmake
    obtain ⟨l, hl, -⟩ := makeOne_eq_ok.mp hmake
    obtain ⟨-, -, rfl⟩ := locate_eq_ok.mp hl
    obtain ⟨hfirst, hothers⟩ := List.forall_mem_cons.mp hfree
    -- The larger tree takes the same step, and stays larger.
    obtain ⟨mid', hmake'⟩ : ∃ mid', t.makeOne q = .ok mid' := by
      rcases hfirst with hnone | hdirectory
      · exact ⟨_, makeOne_eq_ok.mpr ⟨_, hmore.locate hl, .inl ⟨hnone, rfl⟩⟩⟩
      · exact ⟨_, makeOne_eq_ok.mpr ⟨_, hmore.locate hl, .inr ⟨hdirectory, rfl⟩⟩⟩
    obtain ⟨hhere', hget', -⟩ := get_makeOne hmake'
    rw [hmore.here] at hget' hhere'
    have hmid : mid.Extends mid' := by
      refine ⟨hhere'.trans hhere.symm, fun k hk => ?_⟩
      rw [hget k] at hk
      rw [hget' k]
      split_ifs at hk ⊢
      · rfl
      · exact hmore.directory k hk
    have hrest' : ∀ k ∈ rest.map (resolve mid.here),
        mid'.get? k = none ∨ mid'.get? k = some .directory := by
      intro k hk
      rw [hhere] at hk
      rw [hget' k]
      split_ifs
      · exact .inr rfl
      · exact hothers k hk
    obtain ⟨t', ht'⟩ := ih hrest hmid hrest'
    exact ⟨t', makeEach_cons_eq_ok.mpr ⟨mid', hmake', ht'⟩⟩

/-- A directory that can be made in a tree can be made in a larger one, if nothing else has come to
stand on the way. -/
lemma makeDirectory_of_extends {s s' : FileTree} (h : s.makeDirectory p = .ok s')
    (hmore : s.Extends t)
    (hfree : ∀ k ∈ chain s.here p, t.get? k = none ∨ t.get? k = some .directory) :
    ∃ t', t.makeDirectory p = .ok t' :=
  makeEach_of_extends h hmore hfree

/-! ### Trees whose entries are in directories -/

/-- All directories down to a location are there. -/
def Rooted (t : FileTree) (l : Location) : Prop := ∀ k, k <+: l → t.get? k = some .directory

lemma Extends.rooted (h : t.Extends t') (hl : t.Rooted l) : t'.Rooted l :=
  fun k hk => h.directory k (hl k hk)

/-- Everything is in a directory, and relative paths start from one. -/
structure Sound (t : FileTree) : Prop where
  here : t.get? t.here = some .directory
  inside : ∀ x ∈ t.entries, t.get? x.1.dropLast = some .directory

instance decidableSound (t : FileTree) : Decidable t.Sound :=
  decidable_of_iff
    (t.get? t.here = some .directory ∧ ∀ x ∈ t.entries, t.get? x.1.dropLast = some .directory)
    ⟨fun h => ⟨h.1, h.2⟩, fun h => ⟨h.here, h.inside⟩⟩

lemma Sound.parent (h : t.Sound) {c : Text} {e : Entry} (he : t.get? (l ++ [c]) = some e) :
    t.get? l = some .directory := by
  simpa using h.inside _ (mem_of_get (by simp) he)

/-- What something stands below is a directory. -/
lemma Sound.above (h : t.Sound) {rest : Location} {e : Entry} (hne : rest ≠ [])
    (he : t.get? (l ++ rest) = some e) : t.get? l = some .directory := by
  induction rest generalizing l with
  | nil => exact absurd rfl hne
  | cons c rest ih =>
    by_cases hrest : rest = []
    · subst hrest
      exact h.parent he
    · have hnext : t.get? (l ++ [c]) = some .directory := ih hrest (by simpa using he)
      exact h.parent hnext

/-- Where a directory is, so are all those down to it. -/
lemma Sound.rooted (h : t.Sound) (hl : t.get? l = some .directory) : t.Rooted l := by
  rintro k ⟨rest, rfl⟩
  by_cases hrest : rest = []
  · simpa [hrest] using hl
  · exact h.above hrest hl

end SheetFormula.FileTree
