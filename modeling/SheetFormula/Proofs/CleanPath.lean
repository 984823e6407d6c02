import SheetFormula.Proofs.FileTree

/-!
# Clean paths

The text of a clean path is that of its components, so following it makes no detours: all that is on
the way is above its place or above the directory that it starts from. In a tree whose entries are
in directories such a path can be followed if the directory that it leads into is there.
-/

namespace SheetFormula

namespace Text

lemma mem_join_of_mem {sep part : Text} {parts : List Text} {b : UInt8} (hpart : part ∈ parts)
    (hb : b ∈ part) : b ∈ join sep parts := by
  cases parts with
  | nil => cases hpart
  | cons x xs =>
    rw [join_cons, List.mem_append, eachAfter, List.mem_flatMap]
    rcases List.mem_cons.mp hpart with rfl | hpart
    · exact .inl hb
    · exact .inr ⟨part, hpart, List.mem_append_right sep hb⟩

lemma mem_of_mem_join {sep : Text} {parts : List Text} {b : UInt8} (h : b ∈ join sep parts) :
    b ∈ sep ∨ ∃ part ∈ parts, b ∈ part := by
  cases parts with
  | nil => cases h
  | cons x xs =>
    rw [join_cons, List.mem_append, eachAfter, List.mem_flatMap] at h
    rcases h with hb | ⟨part, hpart, hb⟩
    · exact .inr ⟨x, List.mem_cons_self, hb⟩
    · rcases List.mem_append.mp hb with hb | hb
      · exact .inl hb
      · exact .inr ⟨part, List.mem_cons_of_mem x hpart, hb⟩

lemma mem_of_mem_splitOn {sep b : UInt8} {t piece : Text} (hpiece : piece ∈ splitOn sep t)
    (hb : b ∈ piece) : b ∈ t := by
  have hjoin : join [sep] (splitOn sep t) = t := by
    rw [splitOn_eq]
    exact List.intercalate_splitOn sep
  rw [← hjoin]
  exact mem_join_of_mem hpiece hb

end Text

namespace Path

/-! ### The text of components -/

lemma isAbsolute_spelled (absolute : Bool) {cs : List Text} (h : ∀ c ∈ cs, c ≠ [] ∧ slash ∉ c) :
    isAbsolute (spelled absolute cs) = absolute := by
  cases absolute with
  | true => rfl
  | false => exact isAbsolute_join h

/-- The pieces of a path with some components. -/
lemma splitOn_spelled (absolute : Bool) {cs : List Text} (hne : cs ≠ [])
    (h : ∀ c ∈ cs, slash ∉ c) :
    Text.splitOn slash (spelled absolute cs) = (if absolute then [[]] else []) ++ cs := by
  have hsplit := Text.splitOn_join hne h
  cases absolute with
  | true => exact (Text.splitOn_append slash [] _).trans (congrArg _ hsplit)
  | false => exact hsplit

lemma foldl_push_up (n m : Nat) :
    (List.replicate n (".." : Text)).foldl (push false) (List.replicate m (".." : Text)) =
      List.replicate (m + n) (".." : Text) := by
  induction n generalizing m with
  | zero => rfl
  | succ n ih =>
    have hpush : push false (List.replicate m (".." : Text)) ".." =
        List.replicate (m + 1) (".." : Text) := by
      cases m <;> rfl
    rw [List.replicate_succ, List.foldl_cons, hpush, ih]
    congr 1
    omega

lemma foldl_push_proper {absolute : Bool} {names : List Text} (h : ∀ c ∈ names, Proper c)
    (stack : List Text) : names.foldl (push absolute) stack = names.reverse ++ stack := by
  induction names generalizing stack with
  | nil => rfl
  | cons c rest ih =>
    obtain ⟨hc, hrest⟩ := List.forall_mem_cons.mp h
    rw [List.foldl_cons, push_proper hc, ih hrest]
    simp

/-- Components are steps up and then names, without steps up from the root. -/
lemma Shaped.exists_eq {absolute : Bool} {cs : List Text} (h : Shaped absolute cs.reverse) :
    ∃ n names, cs = List.replicate n (".." : Text) ++ names ∧ (absolute = true → n = 0) ∧
      ∀ c ∈ names, Proper c := by
  obtain ⟨names, n, hstack, hroot, hnames⟩ := h
  refine ⟨n, names.reverse, ?_, hroot, fun c hc => hnames c (List.mem_reverse.mp hc)⟩
  rw [← List.reverse_reverse cs, hstack, List.reverse_append, List.reverse_replicate]

/-- Components that are on a stack already stay as they are. -/
lemma foldl_push_shaped {absolute : Bool} {cs : List Text} (h : Shaped absolute cs.reverse) :
    cs.foldl (push absolute) [] = cs.reverse := by
  obtain ⟨n, names, rfl, hroot, hnames⟩ := h.exists_eq
  have hups : (List.replicate n (".." : Text)).foldl (push absolute) [] =
      List.replicate n (".." : Text) := by
    cases absolute with
    | true =>
      rw [hroot rfl]
      rfl
    | false =>
      have hups := foldl_push_up n 0
      rwa [Nat.zero_add] at hups
  rw [List.foldl_append, hups, foldl_push_proper hnames, List.reverse_append,
    List.reverse_replicate]

/-- A path with some components has these, with slashes behind it or without. -/
lemma components_spelled {absolute : Bool} {cs : List Text} (h : Shaped absolute cs.reverse)
    (hcs : ∀ c ∈ cs, c ≠ [] ∧ slash ∉ c) : components (spelled absolute cs) = cs := by
  by_cases hne : cs = []
  · subst hne
    cases absolute <;> rfl
  · have hpieces := splitOn_spelled absolute hne fun c hc => (hcs c hc).2
    have hlead : ((if absolute then [[]] else []) : List Text).foldl (push absolute) [] = [] := by
      cases absolute <;> rfl
    rw [components, isAbsolute_spelled absolute hcs, hpieces, List.foldl_append, hlead,
      foldl_push_shaped h, List.reverse_reverse]

lemma components_append_slash {q : Text} (hq : q ≠ []) :
    components (q ++ [slash]) = components q := by
  rw [components, components, isAbsolute_append hq, Text.splitOn_append, List.foldl_append]
  rfl

lemma clean_eq_spelled {p : Text} (h : components p ≠ []) :
    clean p = spelled (isAbsolute p) (components p) := by
  rw [clean, spelled]
  by_cases habsolute : isAbsolute p = true
  · rw [if_pos habsolute, if_pos habsolute]
    rfl
  · rw [if_neg habsolute, if_neg habsolute, if_neg (by simpa using h)]
    rfl

lemma components_clean (p : Text) : components (clean p) = components p := by
  by_cases h : components p = []
  · rw [h, clean, h]
    split_ifs
    · rfl
    · rfl
    · contradiction
  · rw [clean_eq_spelled h]
    exact components_spelled (shaped_components p) fun c => component_ne_nil

lemma clean_congr {p q : Text} (habsolute : isAbsolute p = isAbsolute q)
    (hcs : components p = components q) : clean p = clean q := by
  rw [clean, clean, habsolute, hcs]

/-- The directory of what is in a directory is the directory, as text. -/
lemma dir_clean {q c : Text} (hq : q ≠ []) (hc : Proper c) (hslash : slash ∉ c) :
    dir (clean (q ++ slash :: c)) = clean q := by
  have hcs := components_append_proper hq hc hslash
  have habsolute := isAbsolute_append hq (slash :: c)
  have hclean : clean (q ++ slash :: c) = spelled (isAbsolute q) (components q ++ [c]) := by
    rw [clean_eq_spelled (by simp [hcs]), hcs, habsolute]
  have hparts : ∀ d ∈ components q, d ≠ [] ∧ slash ∉ d := fun d => component_ne_nil
  have hsame : components (spelled (isAbsolute q) (components q)) = components q :=
    components_spelled (shaped_components q) hparts
  have hdir : ∀ p, dir p = clean (front p) := fun p => rfl
  rw [hclean, hdir]
  by_cases hnone : components q = []
  · have hjoin : Text.join [slash] (components q ++ [c]) = c := by
      rw [hnone]
      exact List.append_nil c
    rw [spelled, hjoin]
    by_cases hq' : isAbsolute q = true
    · rw [if_pos hq', List.singleton_append, ← List.nil_append (slash :: c),
        front_append_slash hslash]
      exact clean_congr hq'.symm hnone.symm
    · rw [if_neg hq', List.nil_append, front_of_not_mem hslash]
      exact clean_congr (Bool.eq_false_iff.mpr hq').symm hnone.symm
  · have hfront : front (spelled (isAbsolute q) (components q ++ [c])) =
        spelled (isAbsolute q) (components q) ++ [slash] := by
      rw [spelled, Text.join_concat hnone, ← List.append_assoc, ← List.append_assoc,
        List.append_assoc _ [slash] c, List.singleton_append]
      exact front_append_slash hslash _
    have hsome : spelled (isAbsolute q) (components q) ≠ [] := by
      intro hempty
      rw [hempty] at hsame
      exact hnone hsame.symm
    rw [hfront]
    refine clean_congr ?_ ?_
    · rw [isAbsolute_append hsome, isAbsolute_spelled _ hparts]
    · rw [components_append_slash hsome, hsame]

/-! ### The way along a clean path -/

lemma mem_wayFrom {l x : Location} {cs : List Text} (h : x ∈ wayFrom l cs) :
    ∃ n, n < cs.length ∧ x = (cs.take n).foldl follow l := by
  induction cs generalizing l with
  | nil => cases h
  | cons c rest ih =>
    rcases List.mem_cons.mp h with rfl | h
    · exact ⟨0, Nat.zero_lt_succ _, rfl⟩
    · obtain ⟨n, hn, rfl⟩ := ih h
      exact ⟨n + 1, Nat.succ_lt_succ hn, rfl⟩

/-- Nothing on the way along some components is made by a detour: it is above the place that they
lead to, or above where they start. -/
lemma prefix_of_take_components (here : Location) (p : Text) {n : Nat}
    (hn : n < (components p).length) :
    ((components p).take n).foldl follow (start here p) <+: (resolve here p).dropLast ∨
      ((components p).take n).foldl follow (start here p) <+: here := by
  obtain ⟨m, names, hcs, -, hproper⟩ := (shaped_components p).exists_eq
  have hstart : start here p = [] ∨ start here p = here := by
    rw [start]
    split_ifs
    · exact .inl rfl
    · exact .inr rfl
  rw [← foldl_components here p]
  rw [hcs, List.length_append, List.length_replicate] at hn
  rw [hcs, List.take_append, List.length_replicate, List.take_replicate, List.foldl_append,
    List.foldl_append, foldl_follow_proper hproper]
  by_cases hm : n ≤ m
  · have hnone : n - m = 0 := by omega
    have habove := foldl_follow_up (min n m) (start here p)
    rw [hnone, List.take_zero, List.foldl_nil]
    rcases hstart with hstart | hstart
    · rw [hstart] at habove ⊢
      rw [List.prefix_nil.mp habove]
      exact .inl (List.nil_prefix)
    · rw [hstart] at habove ⊢
      exact .inr habove
  · have hall : min n m = m := by omega
    rw [hall, foldl_follow_proper fun c hc => hproper c (List.mem_of_mem_take hc)]
    refine .inl ?_
    have hne : names ≠ [] := by
      intro hnil
      rw [hnil, List.length_nil] at hn
      omega
    rw [List.dropLast_append_of_ne_nil hne, List.dropLast_eq_take]
    refine (List.prefix_append_right_inj _).mpr (List.take_prefix_take_left ?_)
    omega

/-- What is on the way to a place depends on what precedes the last part of the path only. -/
lemma way_congr {p q : Text} (h : front p = front q) (here : Location) :
    way here p = way here q := by
  rcases exists_last slash p with hp | ⟨a, r, rfl, hr⟩ <;>
    rcases exists_last slash q with hq | ⟨b, s, rfl, hs⟩
  · rw [way, way, start_of_slash_not_mem hp, start_of_slash_not_mem hq, Text.splitOn_of_not_mem hp,
      Text.splitOn_of_not_mem hq]
    rfl
  · rw [front_of_not_mem hp, front_append_slash hs] at h
    exact absurd h.symm (by simp)
  · rw [front_append_slash hr, front_of_not_mem hq] at h
    exact absurd h (by simp)
  · rw [front_append_slash hr, front_append_slash hs] at h
    obtain rfl := List.append_cancel_right h
    rw [way, way, start_append_slash here a r, start_append_slash here a s, Text.splitOn_append,
      Text.splitOn_append, Text.splitOn_of_not_mem hr, Text.splitOn_of_not_mem hs, wayFrom_append,
      wayFrom_append]
    rfl

lemma mem_way_spelled {absolute : Bool} {cs : List Text} {here x : Location} (hne : cs ≠ [])
    (hcs : ∀ c ∈ cs, c ≠ [] ∧ slash ∉ c) (hx : x ∈ way here (spelled absolute cs)) :
    ∃ n, n < cs.length ∧ x = (cs.take n).foldl follow (if absolute then [] else here) := by
  rw [way, start, isAbsolute_spelled absolute hcs,
    splitOn_spelled absolute hne fun c hc => (hcs c hc).2] at hx
  cases absolute with
  | false => exact mem_wayFrom hx
  | true =>
    rcases List.mem_cons.mp hx with rfl | hx
    · exact ⟨0, List.length_pos_of_ne_nil hne, rfl⟩
    · exact mem_wayFrom hx

/-- Paths on the way to a directory lead through where the way starts and through each other. -/
lemma way_onTheWay {here x : Location} {p q : Text} {i : Nat}
    (hq : (FileTree.onTheWay p)[i]? = some q) (hx : x ∈ way here q) :
    x = start here p ∨
      ∃ j < i, ∃ r, (FileTree.onTheWay p)[j]? = some r ∧ x = resolve here r := by
  have hspelled : ∀ j, j < (components p).length → (FileTree.onTheWay p)[j]? =
      some (spelled (isAbsolute p) ((components p).take (j + 1))) := by
    intro j hj
    rw [FileTree.onTheWay, List.getElem?_map, List.getElem?_range hj]
    rfl
  have hne : ∀ j, j < (components p).length → (components p).take (j + 1) ≠ [] := by
    intro j hj hnil
    have := congrArg List.length hnil
    simp only [List.length_take, List.length_nil] at this
    omega
  have hcs : ∀ j, ∀ c ∈ (components p).take j, c ≠ [] ∧ slash ∉ c :=
    fun j c hc => component_ne_nil (List.mem_of_mem_take hc)
  have hi : i < (components p).length := by
    obtain ⟨hi, -⟩ := List.getElem?_eq_some_iff.mp hq
    simpa [FileTree.onTheWay] using hi
  rw [hspelled i hi] at hq
  obtain rfl := Option.some.inj hq
  obtain ⟨n, hn, rfl⟩ := mem_way_spelled (hne i hi) (hcs (i + 1)) hx
  rw [List.length_take] at hn
  rw [List.take_take, Nat.min_eq_left (by omega)]
  cases n with
  | zero => exact .inl rfl
  | succ j =>
    have hj : j < (components p).length := by omega
    refine .inr ⟨j, by omega, _, hspelled j hj, ?_⟩
    exact (resolve_spelled (isAbsolute p) (hne j hj) (hcs (j + 1)) here).symm

lemma prefix_of_mem_way_clean {here x : Location} {p : Text} (hx : x ∈ way here (clean p)) :
    x <+: (resolve here p).dropLast ∨ x <+: here := by
  by_cases hcs : components p = []
  · rw [clean, hcs] at hx
    by_cases habsolute : isAbsolute p = true
    · rw [if_pos habsolute] at hx
      have hroots : x ∈ ([[], []] : List Location) := hx
      obtain rfl : x = [] := by simpa using hroots
      exact .inl List.nil_prefix
    · rw [if_neg habsolute] at hx
      have hhere : x = here := List.mem_singleton.mp hx
      exact .inr (hhere ▸ List.prefix_refl here)
  · rw [clean_eq_spelled hcs] at hx
    obtain ⟨n, hn, rfl⟩ := mem_way_spelled hcs (fun c => component_ne_nil) hx
    exact prefix_of_take_components here p hn

end Path

namespace FileTree

open SheetFormula.Path

variable {t t' : FileTree} {p : Text} {l : Location}

/-! ### Paths that the file system takes -/

/-- A component that the file system takes. -/
def Takes (c : Text) : Prop := c.length ≤ maxName ∧ 0 ∉ c

lemma Usable.takes {c : Text} (h : Usable p) (hc : c ∈ Text.splitOn slash p) : Takes c := by
  refine ⟨h.2.2 c hc, fun hzero => h.1 ?_⟩
  exact Text.mem_of_mem_splitOn hc hzero

/-- So are the components before the last part. -/
lemma Usable.takes_front {c : Text} (h : Usable p) (hc : c ∈ Text.splitOn slash (front p)) :
    Takes c := by
  have hempty : Takes [] := ⟨Nat.zero_le _, List.not_mem_nil⟩
  rcases exists_last slash p with hp | ⟨q, s, rfl, hs⟩
  · rw [front_of_not_mem hp] at hc
    rwa [List.mem_singleton.mp hc]
  · rw [front_append_slash hs, Text.splitOn_append] at hc
    rcases List.mem_append.mp hc with hc | hc
    · refine h.takes ?_
      rw [Text.splitOn_append]
      exact List.mem_append_left _ hc
    · rwa [List.mem_singleton.mp hc]

lemma usable_spelled {absolute : Bool} {cs : List Text} (hne : cs ≠ [])
    (hcs : ∀ c ∈ cs, c ≠ [] ∧ slash ∉ c) (htakes : ∀ c ∈ cs, Takes c) :
    Usable (spelled absolute cs) := by
  refine ⟨?_, ?_, ?_⟩
  · intro hzero
    rcases List.mem_append.mp hzero with hzero | hzero
    · cases absolute with
      | true => exact absurd hzero (by decide)
      | false => cases hzero
    · rcases Text.mem_of_mem_join hzero with hzero | ⟨c, hc, hzero⟩
      · exact absurd hzero (by decide)
      · exact (htakes c hc).2 hzero
  · intro hempty
    have hpieces := splitOn_spelled absolute hne fun c hc => (hcs c hc).2
    obtain ⟨c, rest, rfl⟩ := List.exists_cons_of_ne_nil hne
    obtain ⟨hc, -⟩ := hcs c List.mem_cons_self
    rw [hempty] at hpieces
    cases absolute with
    | true => cases hpieces
    | false => exact hc (List.cons.inj hpieces).1.symm
  · intro c hc
    rw [splitOn_spelled absolute hne fun c hc => (hcs c hc).2] at hc
    rcases List.mem_append.mp hc with hc | hc
    · cases absolute with
      | true =>
        rw [List.mem_singleton.mp hc]
        exact Nat.zero_le _
      | false => cases hc
    · exact (htakes c hc).1

lemma usable_clean (htakes : ∀ c ∈ components p, Takes c) : Usable (clean p) := by
  by_cases hcs : components p = []
  · have hclean : clean p = [slash] ∨ clean p = "." := by
      rw [clean, hcs]
      split_ifs
      · exact .inl rfl
      · exact .inr rfl
      · contradiction
    rcases hclean with hclean | hclean <;> rw [hclean] <;>
      exact ⟨by decide, by decide, by decide⟩
  · rw [clean_eq_spelled hcs]
    exact usable_spelled hcs (fun c => component_ne_nil) htakes

/-! ### Clean paths in sound trees -/

namespace Sound

/-- A clean path can be followed if the directory that it leads into is there. -/
lemma locate_clean (h : t.Sound) (htakes : ∀ c ∈ components p, Takes c)
    (hparent : t.get? (resolve t.here p).dropLast = some .directory) :
    t.locate (clean p) = .ok (resolve t.here p) := by
  refine locate_eq_ok.mpr ⟨usable_clean htakes, fun x hx => ?_, resolve_clean t.here p⟩
  rcases prefix_of_mem_way_clean hx with hx | hx
  · exact h.rooted hparent x hx
  · exact h.rooted h.here x hx

/-- Making a directory that is there changes nothing. -/
lemma makeDirectory_of_directory (h : t.Sound) (htakes : ∀ c ∈ components p, Takes c)
    (hp : t.get? (resolve t.here p) = some .directory) : t.makeDirectory p = .ok t := by
  have hrooted := h.rooted hp
  have hone : ∀ q ∈ onTheWay p, t.makeOne q = .ok t := by
    intro q hq
    have hplace : t.get? (resolve t.here q) = some .directory := by
      rcases prefix_of_mem_chain (List.mem_map_of_mem hq) with habove | habove
      · exact hrooted _ habove
      · exact h.rooted h.here _ habove
    obtain ⟨n, hn, rfl⟩ := List.mem_map.mp hq
    have hn := List.mem_range.mp hn
    have hne : (components p).take (n + 1) ≠ [] := by
      intro hnil
      have := congrArg List.length hnil
      simp only [List.length_take, List.length_nil] at this
      omega
    have hcs : ∀ c ∈ (components p).take (n + 1), c ≠ [] ∧ slash ∉ c :=
      fun c hc => component_ne_nil (List.mem_of_mem_take hc)
    refine makeOne_eq_ok.mpr ⟨_, locate_eq_ok.mpr ⟨?_, fun x hx => ?_, rfl⟩, .inr ⟨hplace, rfl⟩⟩
    · exact usable_spelled hne hcs fun c hc => htakes c (List.mem_of_mem_take hc)
    · obtain ⟨m, hm, rfl⟩ := mem_way_spelled hne hcs hx
      rw [List.length_take] at hm
      rw [List.take_take, Nat.min_eq_left (by omega)]
      rcases prefix_of_take_components t.here p (n := m) (by omega) with habove | habove
      · exact hrooted _ (habove.trans (List.dropLast_prefix _))
      · exact h.rooted h.here _ habove
  rw [FileTree.makeDirectory]
  generalize onTheWay p = qs at hone
  induction qs with
  | nil => rfl
  | cons q rest ih =>
    obtain ⟨hq, hrest⟩ := List.forall_mem_cons.mp hone
    exact makeEach_cons_eq_ok.mpr ⟨t, hq, ih hrest⟩

lemma put (h : t.Sound) {e : Entry} (hparent : t.get? l.dropLast = some .directory)
    (hl : l ≠ []) (he : e = .directory ∨ t.get? l ≠ some .directory) : (t.put l e).Sound := by
  have hmore := extends_put hl he
  refine ⟨hmore.directory _ h.here, fun x hx => ?_⟩
  rcases List.mem_cons.mp hx with rfl | hx
  · exact hmore.directory _ hparent
  · exact hmore.directory _ (h.inside x (List.mem_filter.mp hx).1)

lemma makeOne (h : t.Sound) (hmake : t.makeOne p = .ok t') : t'.Sound := by
  obtain ⟨l, hl, ⟨hfree, rfl⟩ | ⟨-, rfl⟩⟩ := makeOne_eq_ok.mp hmake
  · obtain ⟨-, hway, rfl⟩ := locate_eq_ok.mp hl
    have hne : resolve t.here p ≠ [] := ne_nil_of_get (t := t) (by simp [hfree])
    refine h.put ?_ hne (.inl rfl)
    have hfront := hway _ (resolve_front_mem_way t.here p)
    -- The last part is a name: all other places that it could lead to are there.
    rw [resolve_eq_follow, follow] at hfree ⊢
    split_ifs at hfree ⊢
    · rw [hfront] at hfree
      cases hfree
    · rw [h.rooted hfront _ (List.dropLast_prefix _)] at hfree
      cases hfree
    · rwa [List.dropLast_concat]
  · exact h

lemma makeDirectory (h : t.Sound) (hmake : t.makeDirectory p = .ok t') : t'.Sound := by
  rw [FileTree.makeDirectory] at hmake
  generalize onTheWay p = qs at hmake
  induction qs generalizing t with
  | nil => rwa [← Except.ok.inj hmake]
  | cons q rest ih =>
    obtain ⟨mid, hfirst, hrest⟩ := makeEach_cons_eq_ok.mp hmake
    exact ih (h.makeOne hfirst) hrest

/-- A directory that has been made is there. -/
lemma get_of_makeDirectory (h : t.Sound) (hmake : t.makeDirectory p = .ok t') :
    t'.get? (resolve t.here p) = some .directory := by
  by_cases hcs : components p = []
  · have hstart : t.get? (resolve t.here p) = some .directory := by
      rw [← foldl_components t.here p, hcs, List.foldl_nil, start]
      split_ifs
      · rfl
      · exact h.here
    exact (extends_makeDirectory hmake).directory _ hstart
  · rw [FileTree.get_makeDirectory hmake, if_pos]
    refine List.mem_map.mpr ⟨spelled (isAbsolute p) (components p), ?_, ?_⟩
    · refine List.mem_map.mpr ⟨(components p).length - 1, ?_, ?_⟩
      · have := List.length_pos_of_ne_nil hcs
        rw [List.mem_range]
        omega
      · have hall : (components p).length - 1 + 1 = (components p).length := by
          have := List.length_pos_of_ne_nil hcs
          omega
        rw [hall, List.take_length]
        rfl
    · rw [← clean_eq_spelled hcs, resolve_clean]

end Sound

end FileTree

end SheetFormula
