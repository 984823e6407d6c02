import Mathlib.Data.List.Forall2
import Mathlib.Data.List.Induction
import SheetFormula.Proofs.Formula.Outline

/-!
# Chains of property accesses

A chain of accesses is one `INDEX` call in nested mode. In two-level mode it is half as many calls
as there are keys, one inside the other. The keys are paired from the outermost call on, so it is
the innermost call that takes a single key if their number is odd.
-/

namespace SheetFormula

/-- Whether a node is a property access. -/
def Node.isMember : Node → Bool
  | .member .. => true
  | _ => false

/-- One access of a chain, without its object. -/
structure Link where
  pos : Position
  key : Node
  computed : Bool

/-- The access of a link to an object. -/
def Link.access (object : Node) (link : Link) : Node :=
  .member link.pos object link.key link.computed

/-- The accesses of links one after the other, the first one to the root. -/
def Node.chain (root : Node) (links : List Link) : Node := links.foldl Link.access root

@[simp] lemma Node.chain_nil (root : Node) : root.chain [] = root := rfl

@[simp] lemma Node.chain_cons (root : Node) (link : Link) (rest : List Link) :
    root.chain (link :: rest) = (link.access root).chain rest := rfl

namespace Formula

/-- `INDEX` calls in which each one is the first argument of the next, with the keys that each one
takes, the innermost first. -/
def indexCalls (object : Text) (groups : List (List Text)) : Text :=
  groups.foldl (fun inner keys => call "INDEX" (inner :: keys)) object

/-- The keys of a chain in groups, one for each call that the chain becomes in two-level mode. -/
structure Paired (keys : List Text) (groups : List (List Text)) : Prop where
  inOrder : groups.flatten = keys
  count : groups.length = (keys.length + 1) / 2
  innermostFirst : ∃ innermost outer, groups = innermost :: outer ∧
    innermost.length = (if keys.length % 2 = 1 then 1 else 2) ∧ ∀ group ∈ outer, group.length = 2

lemma length_flatten_of_pairs {groups : List (List Text)}
    (h : ∀ group ∈ groups, group.length = 2) : groups.flatten.length = 2 * groups.length := by
  induction groups with
  | nil => rfl
  | cons group rest ih =>
    obtain ⟨hgroup, hrest⟩ := List.forall_mem_cons.mp h
    have hlength := ih hrest
    simp only [List.flatten_cons, List.length_append, List.length_cons]
    omega

/-- An odd number of keys: the first one is alone. -/
lemma Paired.of_odd {key : Text} {groups : List (List Text)}
    (h : ∀ group ∈ groups, group.length = 2) :
    Paired (key :: groups.flatten) ([key] :: groups) := by
  have hlength := length_flatten_of_pairs h
  refine ⟨rfl, ?_, [key], groups, rfl, ?_, h⟩
  · simp only [List.length_cons]
    omega
  · have hodd : (key :: groups.flatten).length % 2 = 1 := by
      simp only [List.length_cons]
      omega
    rw [if_pos hodd]
    rfl

/-- An even number of keys: all are in pairs. -/
lemma Paired.of_even {groups : List (List Text)} (hne : groups ≠ [])
    (h : ∀ group ∈ groups, group.length = 2) : Paired groups.flatten groups := by
  have hlength := length_flatten_of_pairs h
  obtain ⟨first, rest, rfl⟩ := List.exists_cons_of_ne_nil hne
  obtain ⟨hfirst, hrest⟩ := List.forall_mem_cons.mp h
  refine ⟨rfl, by omega, first, rest, rfl, ?_, hrest⟩
  have heven : ¬ (first :: rest).flatten.length % 2 = 1 := by omega
  rw [if_neg heven, hfirst]

variable {mode : MemberMode} {object : Node} {x : Lowered}

/-- A node that is no access gives a single argument to the access that it is the object of. -/
lemma lower_of_not_member (hobject : object.isMember = false) (h : lower mode object = .ok x) :
    x = .single x.formula := by
  have hnot : ∀ pos o k c, object ≠ .member pos o k c := by
    rintro pos o k c rfl
    cases hobject
  rw [Outline.eq_lowered h, Outline.lowered_of_not_member hnot]
  rfl

/-- The keys of links have these formulas, one by one. -/
abbrev KeysAre (mode : MemberMode) (links : List Link) (keys : List Text) : Prop :=
  List.Forall₂ (fun link key => ofNode mode (some link.key) = .ok key) links keys

/-- What one more access comes to. -/
lemma lower_access {link : Link} {key : Text} (h : lower mode object = .ok x)
    (hkey : ofNode mode (some link.key) = .ok key) :
    ∃ y, lower mode (link.access object) = .ok y ∧ y.formula = call "INDEX" (x.path ++ [key]) ∧
      y.path = match mode with
        | .nested => x.path ++ [key]
        | .twoLevel => [x.formula, key] := by
  obtain ⟨k, hk, rfl⟩ := ofNode_eq_ok.mp hkey
  refine ⟨.member mode x k, ?_, rfl, ?_⟩
  · simp only [Link.access, lower, Result.bind_eq_ok, Result.pure_eq_ok]
    exact ⟨x, h, k, hk, rfl⟩
  · cases mode <;> rfl

/-- In nested mode every access hands on the arguments of its own call, so one call collects all
keys. -/
lemma lower_nested_chain {links : List Link} {keys : List Text}
    (h : lower .nested object = .ok x) (hkeys : KeysAre .nested links keys) (hne : links ≠ []) :
    ∃ y, lower .nested (object.chain links) = .ok y ∧
      y.formula = call "INDEX" (x.path ++ keys) := by
  induction hkeys generalizing object x with
  | nil => exact absurd rfl hne
  | @cons link key rest keys hkey hrest ih =>
    obtain ⟨y, hy, hformula, hpath⟩ := lower_access h hkey
    cases hrest with
    | nil => exact ⟨y, hy, hformula⟩
    | cons hnext hlater =>
      obtain ⟨z, hz, hcall⟩ := ih hy (List.cons_ne_nil _ _)
      refine ⟨z, hz, ?_⟩
      rw [hcall, hpath]
      simp

/-- In two-level mode an access hands on the formula of its object as a whole, so two accesses in a
row are one call around what was there before. -/
lemma lower_twoLevel_pairs {links : List Link} {keys : List Text}
    (h : lower .twoLevel object = .ok x) (hkeys : KeysAre .twoLevel links keys)
    (heven : links.length % 2 = 0) :
    ∃ groups y, lower .twoLevel (object.chain links) = .ok y ∧
      y.formula = indexCalls x.formula groups ∧ groups.flatten = keys ∧
      ∀ group ∈ groups, group.length = 2 := by
  induction links using List.twoStepInduction generalizing object x keys with
  | nil =>
    cases hkeys
    exact ⟨[], x, h, rfl, rfl, by simp⟩
  | singleton link => simp at heven
  | cons_cons first second rest ih _ =>
    obtain ⟨a, _, hfirst, hlater, rfl⟩ := List.forall₂_cons_left_iff.mp hkeys
    obtain ⟨b, later, hsecond, hrest, rfl⟩ := List.forall₂_cons_left_iff.mp hlater
    obtain ⟨y, hy, -, hpath⟩ := lower_access h hfirst
    obtain ⟨z, hz, hformula, -⟩ := lower_access hy hsecond
    have hrestEven : rest.length % 2 = 0 := by
      simp only [List.length_cons] at heven
      omega
    obtain ⟨groups, w, hw, hcalls, hflatten, hpairs⟩ := ih hz hrest hrestEven
    refine ⟨[a, b] :: groups, w, hw, ?_, by simp [hflatten], ?_⟩
    · rw [hcalls, hformula, hpath]
      rfl
    · exact List.forall_mem_cons.mpr ⟨rfl, hpairs⟩

end Formula

/-- A chain of accesses to a root that is no access itself, all of whose parts have formulas, is a
single call in nested mode. In two-level mode it is half as many calls as it has keys, rounded up:
the innermost one takes the root with one key or two, depending on the parity, and every other one
takes the call inside it and two keys more. From the innermost call outwards the keys are in
order. -/
theorem member_chain_calls {root : Node} {links : List Link} (hroot : root.isMember = false)
    (hlinks : links ≠ []) :
    (∀ r keys, Formula.ofNode .nested (some root) = .ok r →
      List.Forall₂ (fun link key => Formula.ofNode .nested (some link.key) = .ok key) links keys →
      Formula.ofNode .nested (some (root.chain links)) =
        .ok (Formula.call "INDEX" (r :: keys))) ∧
    ∀ r keys, Formula.ofNode .twoLevel (some root) = .ok r →
      List.Forall₂ (fun link key => Formula.ofNode .twoLevel (some link.key) = .ok key) links keys →
      ∃ groups, Formula.Paired keys groups ∧
        Formula.ofNode .twoLevel (some (root.chain links)) = .ok (Formula.indexCalls r groups) := by
  constructor
  · intro r keys hr hkeys
    obtain ⟨x, hx, rfl⟩ := Formula.ofNode_eq_ok.mp hr
    obtain ⟨y, hy, hcall⟩ := Formula.lower_nested_chain hx hkeys hlinks
    apply Formula.ofNode_eq_ok.mpr
    refine ⟨y, hy, ?_⟩
    rw [hcall, Formula.lower_of_not_member hroot hx]
    rfl
  · intro r keys hr hkeys
    obtain ⟨x, hx, rfl⟩ := Formula.ofNode_eq_ok.mp hr
    rcases Nat.mod_two_eq_zero_or_one links.length with heven | hodd
    · obtain ⟨groups, y, hy, hcalls, rfl, hpairs⟩ :=
        Formula.lower_twoLevel_pairs hx hkeys heven
      have hgroups : groups ≠ [] := by
        rintro rfl
        exact hlinks (List.forall₂_nil_right_iff.mp hkeys)
      exact ⟨groups, .of_even hgroups hpairs, Formula.ofNode_eq_ok.mpr ⟨y, hy, hcalls⟩⟩
    · -- The first access is a call of its own, and an even number of accesses follow it.
      obtain ⟨link, rest, rfl⟩ := List.exists_cons_of_ne_nil hlinks
      obtain ⟨key, later, hkey, hlater, rfl⟩ := List.forall₂_cons_left_iff.mp hkeys
      obtain ⟨y, hy, hfirst, -⟩ := Formula.lower_access hx hkey
      have heven : rest.length % 2 = 0 := by
        simp only [List.length_cons] at hodd
        omega
      obtain ⟨groups, z, hz, hcalls, rfl, hpairs⟩ :=
        Formula.lower_twoLevel_pairs hy hlater heven
      refine ⟨[key] :: groups, .of_odd hpairs, Formula.ofNode_eq_ok.mpr ⟨z, hz, ?_⟩⟩
      rw [hcalls, hfirst, Formula.lower_of_not_member hroot hx]
      rfl

/-- A chain of five keys on a range, whose third key is a chain itself. -/
theorem five_keys_pair_up :
    let root : Node := .sequence {} [.identifier {} "A1", .identifier {} "B9"]
    let key (name : Text) : Link := ⟨{}, .identifier {} name, false⟩
    let inner : Node := Node.chain (.identifier {} "x") [key "y", key "z"]
    let links : List Link := [key "a", key "b", ⟨{}, inner, true⟩, key "c", key "d"]
    Formula.ofNode .nested (some (root.chain links)) =
      .ok "INDEX(A1:B9, a, b, INDEX(x, y, z), c, d)" ∧
    ∃ groups, Formula.Paired ["a", "b", "INDEX(x, y, z)", "c", "d"] groups ∧
      Formula.ofNode .twoLevel (some (root.chain links)) =
        .ok (Formula.indexCalls "A1:B9" groups) ∧
      Formula.indexCalls "A1:B9" groups =
        "INDEX(INDEX(INDEX(A1:B9, a), b, INDEX(x, y, z)), c, d)" := by
  intro root key inner links
  obtain ⟨hnested, htwoLevel⟩ := @member_chain_calls root links rfl (List.cons_ne_nil _ _)
  have hkeys : ∀ mode, Formula.KeysAre mode links ["a", "b", "INDEX(x, y, z)", "c", "d"] := by
    intro mode
    cases mode <;> exact .cons rfl (.cons rfl (.cons rfl (.cons rfl (.cons rfl .nil))))
  obtain ⟨groups, hpaired, hcalls⟩ := htwoLevel "A1:B9" _ rfl (hkeys .twoLevel)
  have htext : Formula.ofNode .twoLevel (some (root.chain links)) =
      .ok "INDEX(INDEX(INDEX(A1:B9, a), b, INDEX(x, y, z)), c, d)" := by rfl
  refine ⟨hnested "A1:B9" _ rfl (hkeys .nested), groups, hpaired, hcalls, ?_⟩
  exact Except.ok.inj (hcalls.symm.trans htext)

end SheetFormula
