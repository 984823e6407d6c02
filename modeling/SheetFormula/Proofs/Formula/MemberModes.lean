import SheetFormula.Proofs.Formula.Outline
import SheetFormula.Proofs.Formula.Runs

/-!
# The two member modes

The member mode has no say in what is accepted: in either mode the same trees and the same modules
fail, each with the same diagnostic. What compiles is written from one outline, which two-level mode
writes as it is and nested mode merges first.
-/

namespace SheetFormula

namespace Formula

open Result (Alike)

/-- Both succeed, or both fail with the same diagnostic. -/
abbrev Agree {α β : Type} (x : Except Diagnostic α) (y : Except Diagnostic β) : Prop :=
  Alike (fun _ _ => True) Eq x y

/-- Whether a tree has a formula in both modes, or fails with the same diagnostic in both. -/
abbrev AgreeOn (mode mode' : MemberMode) (n : Node) : Prop := Agree (lower mode n) (lower mode' n)

variable {mode mode' : MemberMode}

lemma placesAlike_eq (p : Position) : PlacesAlike Eq p p := fun _ => rfl

lemma agree_parameters (ps : List Node) : Alike Eq Eq (parameters ps) (parameters ps) := by
  cases parameters ps <;> rfl

lemma agree_lowerAll {ns : List Node} (h : ∀ n ∈ ns, AgreeOn mode mode' n) :
    Agree (lowerAll mode ns) (lowerAll mode' ns) := by
  induction ns with
  | nil => trivial
  | cons n rest ih =>
    obtain ⟨hn, hrest⟩ := List.forall_mem_cons.mp h
    exact hn.bind fun _ _ _ => (ih hrest).bind fun _ _ _ => trivial

lemma agree_returned {pos : Position} {argument : Option Node}
    (h : ∀ n ∈ argument, AgreeOn mode mode' n) :
    Agree (returned mode pos argument) (returned mode' pos argument) := by
  cases argument with
  | none => rfl
  | some n => exact (h n rfl).bind fun _ _ _ => trivial

/-! ### Declarations -/

lemma alike_binding {d : Declarator Node}
    (h : ∀ n ∈ d.init, AgreeOn mode mode' n) :
    Alike (BindingAlike fun _ _ => True) Eq (binding mode d) (binding mode' d) := by
  obtain ⟨pos, id, init⟩ := d
  cases id with
  | identifier p name =>
    cases init with
    | none => rfl
    | some n => exact (h n rfl).bind fun _ _ _ => ⟨rfl, trivial⟩
  | _ => cases init <;> rfl

lemma alike_bindings {ds : List (Declarator Node)}
    (h : ∀ d ∈ ds, ∀ n ∈ d.init, AgreeOn mode mode' n) :
    BoundAlike (fun _ _ => True) Eq (bindings mode ds) (bindings mode' ds) := by
  induction ds with
  | nil => exact .nil
  | cons d rest ih =>
    obtain ⟨hd, hrest⟩ := List.forall_mem_cons.mp h
    refine (alike_binding hd).bind fun b c hbc => (ih hrest).bind fun bs cs hbs => ?_
    exact .cons ⟨placesAlike_eq d.pos, hbc⟩ hbs

lemma alike_declaration {pos : Position} {keyword : Text} {ds : List (Declarator Node)}
    (h : ∀ m : Node, m.Within (.declaration pos keyword ds) →
      AgreeOn mode mode' m) :
    BoundAlike (fun _ _ => True) Eq (bindings mode ds) (bindings mode' ds) := by
  refine alike_bindings fun d hd n hn => ?_
  have hvalue : n.Within (.declarator d) :=
    .child (List.mem_cons_of_mem d.id (Option.mem_toList.mpr hn))
  exact h n (hvalue.trans (.child (List.mem_map_of_mem hd)))

lemma alike_exported {pos : Position} {inner : Option Node}
    (h : ∀ n ∈ inner, ∀ m : Node, m.Within n → AgreeOn mode mode' m) :
    BoundAlike (fun _ _ => True) Eq (exported mode pos inner) (exported mode' pos inner) := by
  cases inner with
  | none => rfl
  | some n =>
    cases n with
    | declaration p keyword ds =>
      cases ds with
      | nil => rfl
      | cons d rest => exact alike_declaration (h _ rfl)
    | _ => rfl

/-! ### Trees and modules -/

lemma alike_statement {n : Node}
    (h : ∀ m : Node, m.Within n → AgreeOn mode mode' m) :
    StatementAlike (fun _ _ => True) Eq (statement mode n) (statement mode' n) := by
  have hpart : ∀ c ∈ n.children, ∀ m : Node, m.Within c → AgreeOn mode mode' m :=
    fun c hc m hm => h m (.deeper hc hm)
  cases n with
  | declaration pos keyword ds => exact .declare (placesAlike_eq pos) rfl (alike_declaration h)
  | ret pos argument =>
    refine .ret (placesAlike_eq pos) (agree_returned fun c hc => ?_)
    exact hpart c (Option.mem_toList.mpr hc) c (.root c)
  | exportDefault pos inner =>
    have hinner := hpart inner List.mem_cons_self inner (.root inner)
    exact .exportDefault (placesAlike_eq pos) (hinner.map fun _ _ _ => trivial)
  | exportNamed pos inner =>
    refine .exportNamed (placesAlike_eq pos) (alike_exported fun c hc => ?_)
    exact hpart c (Option.mem_toList.mpr hc)
  | expression pos inner =>
    have hinner := hpart inner List.mem_cons_self inner (.root inner)
    exact .expression (placesAlike_eq pos) (hinner.map fun _ _ _ => trivial)
  | other pos kind => exact .other kind (placesAlike_eq pos)
  | _ => exact .misplaced _ (placesAlike_eq _)

lemma alike_statements {body : List Node}
    (h : ∀ n ∈ body, ∀ m : Node, m.Within n → AgreeOn mode mode' m) :
    List.Forall₂ (StatementAlike (fun _ _ => True) Eq) (statements mode body)
      (statements mode' body) := by
  rw [statements_eq_map, statements_eq_map, List.forall₂_map_left_iff, List.forall₂_map_right_iff,
    List.forall₂_same]
  exact fun n hn => alike_statement (h n hn)

/-- A tree has a formula in both modes, or fails with the same diagnostic in both. -/
theorem agree_lower (n : Node) : AgreeOn mode mode' n := by
  induction n using Node.withinInduction with
  | step n ih =>
    have child : ∀ c ∈ n.children, AgreeOn mode mode' c := fun c hc =>
      ih c hc c (.root c)
    cases n with
    | identifier | literal => trivial
    | binary pos left sign right =>
      refine .ite Iff.rfl (fun _ => ?_) fun _ => rfl
      refine (child left (by simp [Node.children])).bind fun _ _ _ => ?_
      exact (child right (by simp [Node.children])).bind fun _ _ _ => trivial
    | conditional pos test consequent alternate =>
      refine (child test (by simp [Node.children])).bind fun _ _ _ => ?_
      refine (child consequent (by simp [Node.children])).bind fun _ _ _ => ?_
      exact (child alternate (by simp [Node.children])).bind fun _ _ _ => trivial
    | call pos callee arguments =>
      refine (child callee List.mem_cons_self).bind fun _ _ _ => ?_
      refine (agree_lowerAll fun c hc => ?_).bind fun _ _ _ => trivial
      exact child c (List.mem_cons_of_mem callee hc)
    | member pos object property computed =>
      refine (child object (by simp [Node.children])).bind fun _ _ _ => ?_
      exact (child property (by simp [Node.children])).bind fun _ _ _ => trivial
    | sequence pos expressions => exact (agree_lowerAll child).bind fun _ _ _ => trivial
    | arrow pos params body =>
      refine (agree_parameters params).bind fun _ _ _ => ?_
      exact (child body (by simp [Node.children])).bind fun _ _ _ => trivial
    | block pos body =>
      have hblock := alike_block (placesAlike_eq pos) (alike_statements ih)
        fun _ _ _ _ _ _ => trivial
      exact hblock.map fun _ _ _ => trivial
    | ret pos argument =>
      refine (agree_returned fun c hc => ?_).map fun _ _ _ => trivial
      exact child c (Option.mem_toList.mpr hc)
    | expression pos inner | exportDefault pos inner =>
      exact (child inner List.mem_cons_self).bind fun _ _ _ => trivial
    | _ => rfl

lemma agree_ofNode (n : Option Node) : Agree (ofNode mode n) (ofNode mode' n) := by
  cases n with
  | none => rfl
  | some n => exact (agree_lower n).map fun _ _ _ => trivial

/-- A module compiles in both modes to the same names, or fails with the same diagnostic in both. -/
theorem alike_compile_modes (p : Program) :
    Alike (UnitsAlike fun _ _ => True) Eq (compile mode p) (compile mode' p) :=
  alike_compile (placesAlike_eq p.pos) (alike_statements fun _ _ m _ => agree_lower m)
    fun _ _ _ _ _ _ => trivial

lemma agree_ofProgram (shape : OutputMode) (p : Option Program) :
    Agree (Output.ofProgram shape mode p) (Output.ofProgram shape mode' p) := by
  cases p with
  | none => rfl
  | some p =>
    exact (alike_compile_modes p).bind fun _ _ huv => alike_ofUnit (placesAlike_eq p.pos) huv

end Formula

open Formula (Outline UnitOutline)

/-- The member modes accept the same trees and modules and fail with the same diagnostics. A
two-level formula is the text of an outline, and the nested formula is the text of the same outline
with each access that is the object of another access merged into it. -/
theorem member_modes_agree :
    (∀ n : Option Node,
      ((∃ t, Formula.ofNode .nested n = .ok t) ↔ ∃ t, Formula.ofNode .twoLevel n = .ok t) ∧
      (∀ e, Formula.ofNode .nested n = .error e ↔ Formula.ofNode .twoLevel n = .error e) ∧
      ∀ m t, n = some m → Formula.ofNode .twoLevel n = .ok t →
        t = (Outline.ofNode m).text ∧
        Formula.ofNode .nested n = .ok (Outline.ofNode m).merged.text) ∧
    (∀ p : Program,
      ((∃ u, Formula.compile .nested p = .ok u) ↔ ∃ u, Formula.compile .twoLevel p = .ok u) ∧
      (∀ e, Formula.compile .nested p = .error e ↔ Formula.compile .twoLevel p = .error e) ∧
      ∀ u, Formula.compile .twoLevel p = .ok u →
        u = (UnitOutline.ofProgram p).text ∧
        Formula.compile .nested p = .ok (UnitOutline.ofProgram p).merged.text) ∧
    ∀ (shape : OutputMode) (p : Option Program) (e : Diagnostic),
      Output.ofProgram shape .nested p = .error e ↔
        Output.ofProgram shape .twoLevel p = .error e := by
  refine ⟨fun n => ?_, fun p => ?_, fun shape p e => (Formula.agree_ofProgram shape p).error_iff⟩
  · have hagree : Formula.Agree (Formula.ofNode .nested n) (Formula.ofNode .twoLevel n) :=
      Formula.agree_ofNode n
    refine ⟨hagree.isOk_iff, fun e => hagree.error_iff, ?_⟩
    rintro m t rfl ht
    obtain ⟨s, hs⟩ := hagree.isOk_iff.mpr ⟨t, ht⟩
    have htext : s = (Outline.ofNode m).merged.text := Outline.eq_written hs
    exact ⟨Outline.eq_written ht, by rw [hs, htext]⟩
  · have halike : Result.Alike (Formula.UnitsAlike fun _ _ => True) Eq
        (Formula.compile .nested p) (Formula.compile .twoLevel p) := Formula.alike_compile_modes p
    refine ⟨halike.isOk_iff, fun e => halike.error_iff, ?_⟩
    intro u hu
    obtain ⟨v, hv⟩ := halike.isOk_iff.mpr ⟨u, hu⟩
    have htext : v = (UnitOutline.ofProgram p).merged.text := UnitOutline.eq_written hv
    exact ⟨UnitOutline.eq_written hu, by rw [hv, htext]⟩

/-- A chain of three accesses is two calls in two-level mode and one in nested mode. -/
theorem chain_of_three_merges :
    let chain : Node := .member {} (.member {} (.member {} (.identifier {} "a")
      (.identifier {} "b") false) (.identifier {} "c") false) (.identifier {} "d") false
    Formula.ofNode .twoLevel (some chain) = .ok "INDEX(INDEX(a, b), c, d)" ∧
    Formula.ofNode .nested (some chain) = .ok "INDEX(a, b, c, d)" := by
  intro chain
  have htwo : Formula.ofNode .twoLevel (some chain) = .ok "INDEX(INDEX(a, b), c, d)" := by rfl
  exact ⟨htwo, ((member_modes_agree.1 (some chain)).2.2 chain _ rfl htwo).2⟩

/-- A range of one part writes its part alone, yet it ends a chain: an access to it keeps the call
of the access inside as its first argument in nested mode too. -/
theorem access_through_range_stays :
    let tree : Node := .member {} (.sequence {} [.member {} (.identifier {} "a")
      (.identifier {} "b") false]) (.identifier {} "c") false
    let outline : Outline := .access (.access (.atom "a") [.atom "b"]) [.atom "c"]
    Formula.ofNode .twoLevel (some tree) = .ok outline.text ∧
    Formula.ofNode .nested (some tree) ≠ .ok outline.merged.text := by
  intro tree outline
  have hnested : Formula.ofNode .nested (some tree) = .ok "INDEX(INDEX(a, b), c)" := by rfl
  refine ⟨by rfl, ?_⟩
  rw [hnested]
  simp only [ne_eq, Except.ok.injEq]
  decide

end SheetFormula
