import Mathlib.Tactic.Lemma
import Mathlib.Tactic.SplitIfs
import SheetFormula.FileTree
import SheetFormula.Proofs.Text

/-!
# Where paths lead

Without links the place that a path names can be told from its text and the directory that it
starts from. The functions on the text of a path keep this place, or change it in a simple way.
-/

namespace SheetFormula.Path

/-- A component that names an entry of a directory. -/
def Proper (c : Text) : Prop := c ≠ "" ∧ c ≠ "." ∧ c ≠ ".."

/-- Where a component leads to. -/
def follow (l : Location) (c : Text) : Location :=
  if c = "" || c = "." then l else if c = ".." then l.dropLast else l ++ [c]

/-- Where a path starts. -/
def start (here : Location) (p : Text) : Location := if isAbsolute p then [] else here

/-- The location that a path leads to. -/
def resolve (here : Location) (p : Text) : Location :=
  (Text.splitOn slash p).foldl follow (start here p)

/-- The locations from which components are followed. -/
def wayFrom : Location → List Text → List Location
  | _, [] => []
  | l, c :: cs => l :: wayFrom (follow l c) cs

/-- The locations on the way to where a path leads. -/
def way (here : Location) (p : Text) : List Location :=
  wayFrom (start here p) (Text.splitOn slash p)

/-! ### Following components -/

@[simp] lemma follow_empty (l : Location) : follow l [] = l := rfl

@[simp] lemma follow_here (l : Location) : follow l "." = l := rfl

@[simp] lemma follow_up (l : Location) : follow l ".." = l.dropLast := rfl

lemma follow_proper {c : Text} (h : Proper c) (l : Location) : follow l c = l ++ [c] := by
  obtain ⟨hempty, hhere, hup⟩ := h
  simp [follow, hempty, hhere, hup]

lemma foldl_follow_proper {names : List Text} (h : ∀ c ∈ names, Proper c) (l : Location) :
    names.foldl follow l = l ++ names := by
  induction names generalizing l with
  | nil => simp
  | cons c rest ih =>
    obtain ⟨hc, hrest⟩ := List.forall_mem_cons.mp h
    rw [List.foldl_cons, follow_proper hc, ih hrest]
    simp

lemma foldl_follow_up (n : Nat) (l : Location) :
    (List.replicate n (".." : Text)).foldl follow l <+: l := by
  induction n generalizing l with
  | zero => exact List.prefix_refl l
  | succ n ih =>
    rw [List.replicate_succ, List.foldl_cons, follow_up]
    exact (ih l.dropLast).trans (List.dropLast_prefix l)

/-! ### The last part of a path -/

/-- What precedes the last part of a path. -/
def front (p : Text) : Text := p.take (p.length - (lastPart p).length)

/-- A text has no byte of a kind, or a last one. -/
lemma exists_last (b : UInt8) (p : Text) : b ∉ p ∨ ∃ q s, p = q ++ b :: s ∧ b ∉ s := by
  by_cases h : b ∈ p
  · obtain ⟨s, q, hp, hs⟩ := List.eq_append_cons_of_mem (List.mem_reverse.mpr h)
    refine .inr ⟨q.reverse, s.reverse, ?_, fun hmem => hs (List.mem_reverse.mp hmem)⟩
    rw [← List.reverse_reverse p, hp]
    simp
  · exact .inl h

lemma takeWhile_reverse_append {b : UInt8} {s : Text} (h : b ∉ s) (p : Text) :
    ((p ++ s).reverse.takeWhile (· != b)).reverse =
      (p.reverse.takeWhile (· != b)).reverse ++ s := by
  have hall : ∀ c ∈ s.reverse, (c != b) = true := by
    intro c hc
    rw [bne_iff_ne]
    rintro rfl
    exact h (List.mem_reverse.mp hc)
  rw [List.reverse_append, List.takeWhile_append_of_pos hall]
  simp

lemma lastPart_append {s : Text} (h : slash ∉ s) (p : Text) :
    lastPart (p ++ s) = lastPart p ++ s :=
  takeWhile_reverse_append h p

lemma lastPart_of_not_mem {s : Text} (h : slash ∉ s) : lastPart s = s := lastPart_append h []

lemma lastPart_append_slash {s : Text} (h : slash ∉ s) (q : Text) :
    lastPart (q ++ slash :: s) = s := by
  have hslash : lastPart (q ++ [slash]) = [] := by simp [lastPart]
  rw [← List.singleton_append, ← List.append_assoc, lastPart_append h, hslash, List.nil_append]

lemma front_of_not_mem {s : Text} (h : slash ∉ s) : front s = [] := by
  simp [front, lastPart_of_not_mem h]

lemma front_append_slash {s : Text} (h : slash ∉ s) (q : Text) :
    front (q ++ slash :: s) = q ++ [slash] := by
  rw [front, lastPart_append_slash h, ← List.singleton_append, ← List.append_assoc]
  refine List.take_left' ?_
  simp only [List.length_append, List.length_cons, List.length_nil]
  omega

lemma slash_not_mem_lastPart (p : Text) : slash ∉ lastPart p := by
  rcases exists_last slash p with h | ⟨q, s, rfl, h⟩
  · rwa [lastPart_of_not_mem h]
  · rwa [lastPart_append_slash h]

lemma front_append {s : Text} (h : slash ∉ s) (p : Text) : front (p ++ s) = front p := by
  rcases exists_last slash p with hp | ⟨q, r, rfl, hr⟩
  · have hlong : slash ∉ p ++ s := by simp [hp, h]
    rw [front_of_not_mem hp, front_of_not_mem hlong]
  · have hlong : slash ∉ r ++ s := by simp [hr, h]
    rw [List.append_assoc, List.cons_append, front_append_slash hlong, front_append_slash hr]

lemma front_append_lastPart (p : Text) : front p ++ lastPart p = p := by
  rcases exists_last slash p with h | ⟨q, s, rfl, h⟩
  · rw [front_of_not_mem h, lastPart_of_not_mem h, List.nil_append]
  · rw [front_append_slash h, lastPart_append_slash h, List.append_assoc, List.singleton_append]

/-! ### Extensions -/

/-- The extension ends the last part. -/
lemma exists_append_extension (p : Text) : ∃ r, lastPart p = r ++ extension p := by
  rw [extension]
  rcases exists_last '.' (lastPart p) with h | ⟨q, s, hpart, h⟩
  · have htail : ((lastPart p).reverse.takeWhile fun b : UInt8 => b != '.').reverse = lastPart p :=
      takeWhile_reverse_append h []
    refine ⟨lastPart p, ?_⟩
    simp only [htail, if_true, List.append_nil]
  · have htail : ((lastPart p).reverse.takeWhile fun b : UInt8 => b != '.').reverse = s := by
      rw [hpart, ← List.singleton_append, ← List.append_assoc, takeWhile_reverse_append h]
      simp
    have hlength : ¬ s.length = (lastPart p).length := by
      rw [hpart]
      simp only [List.length_append, List.length_cons]
      omega
    refine ⟨q, ?_⟩
    simp only [htail, if_neg hlength]
    exact hpart

lemma slash_not_mem_extension (p : Text) : slash ∉ extension p := by
  obtain ⟨r, hr⟩ := exists_append_extension p
  intro hmem
  exact slash_not_mem_lastPart p (hr ▸ List.mem_append_right r hmem)

lemma stem_append_extension (p : Text) : stem p ++ extension p = p := by
  obtain ⟨r, hr⟩ := exists_append_extension p
  have hp : p = (front p ++ r) ++ extension p := by
    rw [List.append_assoc, ← hr, front_append_lastPart]
  have hstem : stem p = front p ++ r := by
    have htake : (front p ++ r ++ extension p).take (p.length - (extension p).length) =
        front p ++ r := by
      refine List.take_left' ?_
      have hlength := congrArg List.length hp
      rw [List.length_append] at hlength
      omega
    rwa [← hp] at htake
  rw [hstem]
  exact hp.symm

lemma front_stem (p : Text) : front (stem p) = front p := by
  have h := front_append (slash_not_mem_extension p) (stem p)
  rw [stem_append_extension] at h
  exact h.symm

lemma base_append {s : Text} (h : slash ∉ s) (hne : s ≠ []) (p : Text) :
    base (p ++ s) = lastPart p ++ s := by
  obtain ⟨r, b, rfl⟩ : ∃ r b, s = r ++ [b] :=
    ⟨s.dropLast, s.getLast hne, (List.dropLast_concat_getLast hne).symm⟩
  have hb : (b == slash) = false := by
    rw [beq_eq_false_iff_ne]
    rintro rfl
    exact h (by simp)
  have htrim : ((p ++ (r ++ [b])).reverse.dropWhile (· == slash)).reverse = p ++ (r ++ [b]) := by
    simp [hb]
  rw [base, if_neg (by simp), htrim, ← lastPart_append h]
  simp

/-! ### Where the last part is followed from -/

lemma wayFrom_append (l : Location) (cs ds : List Text) :
    wayFrom l (cs ++ ds) = wayFrom l cs ++ wayFrom (cs.foldl follow l) ds := by
  induction cs generalizing l with
  | nil => rfl
  | cons c cs ih => rw [List.cons_append, wayFrom, wayFrom, ih, List.cons_append, List.foldl_cons]

lemma start_append_slash (here : Location) (q s : Text) :
    start here (q ++ slash :: s) = start here (q ++ [slash]) := by
  have habsolute : isAbsolute (q ++ slash :: s) = isAbsolute (q ++ [slash]) := by
    simp [isAbsolute, List.head?_append]
  rw [start, start, habsolute]

lemma resolve_append_slash (here : Location) (q s : Text) :
    resolve here (q ++ slash :: s) =
      (Text.splitOn slash s).foldl follow (resolve here (q ++ [slash])) := by
  rw [resolve, resolve, start_append_slash, Text.splitOn_append, Text.splitOn_append,
    List.foldl_append, List.foldl_append]
  rfl

lemma start_of_slash_not_mem {p : Text} (h : slash ∉ p) (here : Location) :
    start here p = here := by
  cases p with
  | nil => rfl
  | cons b p =>
    have hb : b ≠ slash := fun heq => h (heq ▸ List.mem_cons_self)
    simp [start, isAbsolute, hb]

lemma resolve_of_not_mem {p : Text} (h : slash ∉ p) (here : Location) :
    resolve here p = follow here p := by
  rw [resolve, start_of_slash_not_mem h, Text.splitOn_of_not_mem h]
  rfl

/-- The last part is followed from where the rest of the path leads. -/
lemma resolve_eq_follow (here : Location) (p : Text) :
    resolve here p = follow (resolve here (front p)) (lastPart p) := by
  rcases exists_last slash p with h | ⟨q, s, rfl, h⟩
  · rw [front_of_not_mem h, lastPart_of_not_mem h, resolve_of_not_mem h]
    rfl
  · rw [front_append_slash h, lastPart_append_slash h, resolve_append_slash,
      Text.splitOn_of_not_mem h]
    rfl

/-- The place where the last part is followed from is on the way. -/
lemma resolve_front_mem_way (here : Location) (p : Text) :
    resolve here (front p) ∈ way here p := by
  rcases exists_last slash p with h | ⟨q, s, rfl, h⟩
  · rw [front_of_not_mem h, way, start_of_slash_not_mem h, Text.splitOn_of_not_mem h]
    exact List.mem_singleton_self here
  · have hresolve : resolve here (q ++ [slash]) =
        (Text.splitOn slash q).foldl follow (start here (q ++ slash :: s)) := by
      rw [resolve, start_append_slash here q s, Text.splitOn_append, List.foldl_append]
      rfl
    rw [front_append_slash h, hresolve, way, Text.splitOn_append, Text.splitOn_of_not_mem h,
      wayFrom_append]
    exact List.mem_append_right _ List.mem_cons_self

/-! ### The components of a path -/

/-- Components on a stack: names above steps up, and no steps up from the root. -/
def Shaped (absolute : Bool) (stack : List Text) : Prop :=
  ∃ names n, stack = names ++ List.replicate n (".." : Text) ∧ (absolute = true → n = 0) ∧
    ∀ c ∈ names, Proper c

lemma push_stay {absolute : Bool} {stack : List Text} {c : Text} (h : c = "" ∨ c = ".") :
    push absolute stack c = stack := by
  rcases h with rfl | rfl <;> rfl

lemma push_proper {absolute : Bool} {stack : List Text} {c : Text} (h : Proper c) :
    push absolute stack c = c :: stack := by
  obtain ⟨hempty, hhere, hup⟩ := h
  simp [push, hempty, hhere, hup]

/-- Pushing a component on a stack leads to where the component leads. -/
lemma shaped_push {absolute : Bool} {stack : List Text} (h : Shaped absolute stack) (c : Text) :
    Shaped absolute (push absolute stack c) ∧ ∀ l : Location, (absolute = true → l = []) →
      (push absolute stack c).reverse.foldl follow l = follow (stack.reverse.foldl follow l) c := by
  by_cases hstay : c = "" ∨ c = "."
  · rw [push_stay hstay]
    refine ⟨h, fun l _ => ?_⟩
    rcases hstay with rfl | rfl <;> rfl
  obtain ⟨hempty, hhere⟩ := not_or.mp hstay
  obtain ⟨names, n, rfl, hroot, hnames⟩ := h
  by_cases hup : c = ".."
  · subst hup
    cases names with
    | nil =>
      cases n with
      | zero =>
        cases absolute with
        | true =>
          refine ⟨⟨[], 0, rfl, fun _ => rfl, by simp⟩, fun l hl => ?_⟩
          rw [hl rfl]
          rfl
        | false => exact ⟨⟨[], 1, rfl, by simp, by simp⟩, fun l _ => rfl⟩
      | succ n =>
        have hpush : push absolute ([] ++ List.replicate (n + 1) (".." : Text)) ".." =
            (".." : Text) :: List.replicate (n + 1) (".." : Text) := rfl
        rw [hpush]
        refine ⟨⟨[], n + 2, rfl, fun habs => absurd (hroot habs) (by simp), by simp⟩, ?_⟩
        intro l _
        simp [List.foldl_append]
    | cons top rest =>
      obtain ⟨htop, hrest⟩ := List.forall_mem_cons.mp hnames
      have hpush : push absolute (top :: rest ++ List.replicate n (".." : Text)) ".." =
          rest ++ List.replicate n (".." : Text) := by
        change (if top = ".." then _ else _) = _
        rw [if_neg htop.2.2]
        rfl
      rw [hpush]
      refine ⟨⟨rest, n, rfl, hroot, hrest⟩, fun l _ => ?_⟩
      rw [List.cons_append, List.reverse_cons, List.foldl_append, List.foldl_cons, List.foldl_nil,
        follow_proper htop, follow_up, List.dropLast_concat]
  · have hc : Proper c := ⟨hempty, hhere, hup⟩
    rw [push_proper hc]
    refine ⟨⟨c :: names, n, rfl, hroot, List.forall_mem_cons.mpr ⟨hc, hnames⟩⟩, fun l _ => ?_⟩
    rw [List.reverse_cons, List.foldl_append]
    rfl

lemma shaped_foldl_push {absolute : Bool} (pieces : List Text) {stack : List Text}
    (h : Shaped absolute stack) :
    Shaped absolute (pieces.foldl (push absolute) stack) ∧
      ∀ l : Location, (absolute = true → l = []) →
        (pieces.foldl (push absolute) stack).reverse.foldl follow l =
          pieces.foldl follow (stack.reverse.foldl follow l) := by
  induction pieces generalizing stack with
  | nil => exact ⟨h, fun _ _ => rfl⟩
  | cons c rest ih =>
    obtain ⟨hshaped, hfollow⟩ := shaped_push h c
    obtain ⟨hall, hresult⟩ := ih hshaped
    refine ⟨hall, fun l hl => ?_⟩
    rw [List.foldl_cons, List.foldl_cons, hresult l hl, hfollow l hl]

lemma shaped_components (p : Text) : Shaped (isAbsolute p) (components p).reverse := by
  rw [components, List.reverse_reverse]
  exact (shaped_foldl_push _ ⟨[], 0, rfl, fun _ => rfl, by simp⟩).1

/-- The components lead to where the path leads. -/
lemma foldl_components (here : Location) (p : Text) :
    (components p).foldl follow (start here p) = resolve here p := by
  have hstart : isAbsolute p = true → start here p = [] := fun h => if_pos h
  exact (shaped_foldl_push _ ⟨[], 0, rfl, fun _ => rfl, by simp⟩).2 _ hstart

lemma mem_push {absolute : Bool} {stack : List Text} {c d : Text}
    (h : d ∈ push absolute stack c) : d ∈ stack ∨ d = c := by
  by_cases hstay : c = "" ∨ c = "."
  · rw [push_stay hstay] at h
    exact .inl h
  obtain ⟨hempty, hhere⟩ := not_or.mp hstay
  by_cases hup : c = ".."
  · subst hup
    cases stack with
    | nil =>
      cases absolute with
      | true => cases h
      | false => exact .inr (List.mem_singleton.mp h)
    | cons top rest =>
      change d ∈ (if top = ".." then _ else _) at h
      split at h
      · exact (List.mem_cons.mp h).symm
      · exact .inl (List.mem_cons_of_mem top h)
  · rw [push_proper ⟨hempty, hhere, hup⟩] at h
    exact (List.mem_cons.mp h).symm

lemma mem_foldl_push {absolute : Bool} {pieces stack : List Text} {c : Text}
    (h : c ∈ pieces.foldl (push absolute) stack) : c ∈ stack ∨ c ∈ pieces := by
  induction pieces generalizing stack with
  | nil => exact .inl h
  | cons d rest ih =>
    rcases ih h with h | h
    · rcases mem_push h with h | rfl
      · exact .inl h
      · exact .inr List.mem_cons_self
    · exact .inr (List.mem_cons_of_mem d h)

lemma mem_splitOn_of_mem_components {p c : Text} (h : c ∈ components p) :
    c ∈ Text.splitOn slash p := by
  rcases mem_foldl_push (List.mem_reverse.mp h) with h | h
  · cases h
  · exact h

/-- Components can be told apart in a text: none is empty, and none has a slash. -/
lemma component_ne_nil {p c : Text} (h : c ∈ components p) : c ≠ [] ∧ slash ∉ c := by
  refine ⟨?_, Text.not_mem_of_mem_splitOn (mem_splitOn_of_mem_components h)⟩
  obtain ⟨names, n, hstack, -, hnames⟩ := shaped_components p
  have hmem : c ∈ names ++ List.replicate n (".." : Text) := hstack ▸ List.mem_reverse.mpr h
  rcases List.mem_append.mp hmem with hname | hup
  · exact (hnames c hname).1
  · rw [List.eq_of_mem_replicate hup]
    decide

/-! ### The text of components -/

/-- The path with some components. -/
def spelled (absolute : Bool) (cs : List Text) : Text :=
  (if absolute then [slash] else []) ++ Text.join [slash] cs

lemma isAbsolute_join {cs : List Text} (h : ∀ c ∈ cs, c ≠ [] ∧ slash ∉ c) :
    isAbsolute (Text.join [slash] cs) = false := by
  cases cs with
  | nil => rfl
  | cons c rest =>
    obtain ⟨hne, hslash⟩ := h c List.mem_cons_self
    obtain ⟨b, c, rfl⟩ := List.exists_cons_of_ne_nil hne
    have hb : b ≠ slash := fun heq => hslash (heq ▸ List.mem_cons_self)
    rw [Text.join_cons]
    simpa [isAbsolute] using hb

lemma resolve_spelled (absolute : Bool) {cs : List Text} (hne : cs ≠ [])
    (h : ∀ c ∈ cs, c ≠ [] ∧ slash ∉ c) (here : Location) :
    resolve here (spelled absolute cs) = cs.foldl follow (if absolute then [] else here) := by
  have hsplit := Text.splitOn_join hne fun c hc => (h c hc).2
  cases absolute with
  | true =>
    have hpieces : Text.splitOn slash (spelled true cs) = [] :: cs :=
      (Text.splitOn_append slash [] _).trans (congrArg _ hsplit)
    rw [resolve, hpieces]
    rfl
  | false =>
    change resolve here (Text.join [slash] cs) = _
    rw [resolve, hsplit, start, isAbsolute_join h]

lemma resolve_clean (here : Location) (p : Text) : resolve here (clean p) = resolve here p := by
  rw [← foldl_components here p, start]
  by_cases hcs : components p = []
  · rw [clean, hcs]
    by_cases habsolute : isAbsolute p = true
    · rw [if_pos habsolute, if_pos habsolute]
      rfl
    · rw [if_neg habsolute, if_neg habsolute]
      rfl
  · rw [← resolve_spelled (isAbsolute p) hcs (fun c => component_ne_nil) here, clean, spelled]
    by_cases habsolute : isAbsolute p = true
    · rw [if_pos habsolute, if_pos habsolute]
      rfl
    · rw [if_neg habsolute, if_neg habsolute, if_neg (by simpa using hcs)]
      rfl

lemma resolve_dir (here : Location) (p : Text) : resolve here (dir p) = resolve here (front p) :=
  resolve_clean here (front p)

lemma isAbsolute_append {q : Text} (hq : q ≠ []) (s : Text) :
    isAbsolute (q ++ s) = isAbsolute q := by
  obtain ⟨b, q, rfl⟩ := List.exists_cons_of_ne_nil hq
  rfl

lemma resolve_trailing_slash {q : Text} (hq : q ≠ []) (here : Location) :
    resolve here (q ++ [slash]) = resolve here q := by
  rw [resolve, resolve, start, start, isAbsolute_append hq, Text.splitOn_append, List.foldl_append]
  rfl

section Join

variable {q c : Text} (hq : q ≠ []) (hc : Proper c) (hslash : slash ∉ c)
include hq hc hslash

lemma resolve_append_proper (here : Location) :
    resolve here (q ++ slash :: c) = resolve here q ++ [c] := by
  rw [resolve_append_slash, Text.splitOn_of_not_mem hslash, resolve_trailing_slash hq]
  exact follow_proper hc _

lemma components_append_proper : components (q ++ slash :: c) = components q ++ [c] := by
  rw [components, components, isAbsolute_append hq, Text.splitOn_append,
    Text.splitOn_of_not_mem hslash, List.foldl_append, List.foldl_cons, List.foldl_nil,
    push_proper hc, List.reverse_cons]

lemma lastPart_clean : lastPart (clean (q ++ slash :: c)) = c := by
  have hsome : ¬ (components q ++ [c]).isEmpty = true := by simp
  rw [clean, isAbsolute_append hq, components_append_proper hq hc hslash, if_neg hsome]
  by_cases hcs : components q = []
  · have hjoin : Text.join [slash] (components q ++ [c]) = c := by
      rw [hcs]
      exact List.append_nil c
    rw [hjoin]
    split_ifs
    · exact lastPart_append_slash hslash []
    · exact lastPart_of_not_mem hslash
  · rw [Text.join_concat hcs, List.append_assoc, List.singleton_append]
    split_ifs
    · exact lastPart_append_slash hslash (slash :: Text.join [slash] (components q))
    · exact lastPart_append_slash hslash _

/-- The directory of what is in a directory. -/
lemma resolve_dir_clean (here : Location) :
    resolve here (dir (clean (q ++ slash :: c))) = resolve here q := by
  have hwhole := resolve_clean here (q ++ slash :: c)
  rw [resolve_append_proper hq hc hslash, resolve_eq_follow, lastPart_clean hq hc hslash,
    follow_proper hc] at hwhole
  rw [resolve_dir]
  exact List.append_cancel_right hwhole

end Join

/-! ### The directories on the way -/

/-- The locations of a directory and of those on the way to it that are made with it. -/
def chain (here : Location) (p : Text) : List Location := (FileTree.onTheWay p).map (resolve here)

lemma mem_chain {here : Location} {p : Text} {k : Location} (h : k ∈ chain here p) :
    ∃ n, k = ((components p).take (n + 1)).foldl follow (start here p) := by
  obtain ⟨q, hq, rfl⟩ := List.mem_map.mp h
  obtain ⟨n, hn, rfl⟩ := List.mem_map.mp hq
  have hcs : (components p).take (n + 1) ≠ [] := by
    intro hnil
    have := congrArg List.length hnil
    have := List.mem_range.mp hn
    simp only [List.length_take, List.length_nil] at *
    omega
  exact ⟨n, resolve_spelled _ hcs (fun c hc => component_ne_nil (List.mem_of_mem_take hc)) here⟩

/-- What is made on the way to a directory is above the directory, or above where it starts. -/
lemma prefix_of_mem_chain {here : Location} {p : Text} {k : Location} (h : k ∈ chain here p) :
    k <+: resolve here p ∨ k <+: here := by
  obtain ⟨m, rfl⟩ := mem_chain h
  obtain ⟨names, n, hstack, hroot, hnames⟩ := shaped_components p
  have hcs : components p = List.replicate n (".." : Text) ++ names.reverse := by
    rw [← List.reverse_reverse (components p), hstack, List.reverse_append, List.reverse_replicate]
  have hproper : ∀ c ∈ names.reverse, Proper c := fun c hc => hnames c (List.mem_reverse.mp hc)
  rw [← foldl_components here p, hcs, List.take_append, List.length_replicate, List.take_replicate,
    List.foldl_append, List.foldl_append, foldl_follow_proper hproper]
  by_cases hm : m + 1 ≤ n
  · have habsolute : ¬ isAbsolute p = true := fun habs => by
      have := hroot habs
      omega
    have hnone : m + 1 - n = 0 := by omega
    rw [hnone, List.take_zero, List.foldl_nil, start, if_neg habsolute]
    exact .inr (foldl_follow_up _ here)
  · have hall : min (m + 1) n = n := by omega
    rw [hall, foldl_follow_proper fun c hc => hproper c (List.mem_of_mem_take hc)]
    exact .inl (List.prefix_append_right_inj _ |>.mpr (List.take_prefix _ _))

end SheetFormula.Path
