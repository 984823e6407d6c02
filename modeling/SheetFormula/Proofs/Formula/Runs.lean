import SheetFormula.Formula.Output
import SheetFormula.Proofs.Formula.Body

/-!
# Two runs side by side

Two bodies whose statements come out alike come out alike themselves: they fail alike, or they bind
the same names to formulas that are alike. It is left open when formulas are alike and when
failures are, so that two member modes can be compared as well as two trees.
-/

namespace SheetFormula.Formula

open Result (Alike)

section Relations

variable (same : Text → Text → Prop) (fail : Diagnostic → Diagnostic → Prop)

/-- Places where every failure is reported alike. -/
def PlacesAlike (p q : Position) : Prop := ∀ f : Fault, fail (f.reportAt p) (f.reportAt q)

/-- One name with formulas that are alike. -/
def BindingAlike (b c : Binding) : Prop := b.name = c.name ∧ same b.formula c.formula

/-- The same names in the same order, with formulas that are alike. -/
abbrev ScopesAlike (bs cs : List Binding) : Prop := List.Forall₂ (BindingAlike same) bs cs

/-- Declarations that come out alike. -/
abbrev BoundAlike (x y : Except Diagnostic (List (Position × Binding))) : Prop :=
  Alike (List.Forall₂ fun b c => PlacesAlike fail b.1 c.1 ∧ BindingAlike same b.2 c.2) fail x y

/-- Statements of one kind whose parts come out alike. -/
inductive StatementAlike : Statement → Statement → Prop
  | declare {p q : Position} {s t : Text} {x y : Except Diagnostic (List (Position × Binding))}
      (place : PlacesAlike fail p q)
      (late : fail ((Fault.unreachable s).reportAt p) ((Fault.unreachable t).reportAt q))
      (bound : BoundAlike same fail x y) : StatementAlike (.declare p s x) (.declare q t y)
  | ret {p q : Position} {x y : Except Diagnostic Text} (place : PlacesAlike fail p q)
      (value : Alike same fail x y) : StatementAlike (.ret p x) (.ret q y)
  | exportDefault {p q : Position} {x y : Except Diagnostic Text} (place : PlacesAlike fail p q)
      (value : Alike same fail x y) : StatementAlike (.exportDefault p x) (.exportDefault q y)
  | exportNamed {p q : Position} {x y : Except Diagnostic (List (Position × Binding))}
      (place : PlacesAlike fail p q) (bound : BoundAlike same fail x y) :
      StatementAlike (.exportNamed p x) (.exportNamed q y)
  | expression {p q : Position} {x y : Except Diagnostic Text} (place : PlacesAlike fail p q)
      (value : Alike same fail x y) : StatementAlike (.expression p x) (.expression q y)
  | other {p q : Position} (kind : Text) (place : PlacesAlike fail p q) :
      StatementAlike (.other p kind) (.other q kind)
  | misplaced {p q : Position} (kind : Text) (place : PlacesAlike fail p q) :
      StatementAlike (.misplaced p kind) (.misplaced q kind)

/-- Function bodies that have come to the same names and to returns that are alike. -/
structure BodyAlike (b c : Body) : Prop where
  scope : ScopesAlike same b.scope c.scope
  returns : List.Forall₂ (fun r s => PlacesAlike fail r.1 s.1 ∧ Alike same fail r.2 s.2)
    b.returns c.returns

/-- Modules that have come to the same names and to exports that are alike. -/
structure ModuleAlike (m k : Module) : Prop where
  scope : ScopesAlike same m.scope k.scope
  main : Option.Rel (Alike same fail) m.main k.main
  named : List.Forall₂ (fun d e => PlacesAlike fail d.1 e.1 ∧ BoundAlike same fail d.2 e.2)
    m.named k.named

/-- Units with the same names, and formulas that are alike. -/
structure UnitsAlike (u v : CompiledUnit) : Prop where
  bindings : ScopesAlike same u.bindings v.bindings
  main : same u.main v.main
  exports : ScopesAlike same u.exports v.exports

end Relations

variable {same : Text → Text → Prop} {fail : Diagnostic → Diagnostic → Prop}

lemma ScopesAlike.bound_eq {bs cs : List Binding} (h : ScopesAlike same bs cs) :
    bound bs = bound cs := by
  induction h with
  | nil => rfl
  | cons hbc _ ih =>
    have hname := hbc.1
    simp only [bound] at ih
    simp [bound, hname, ih]

/-- Scopes that are alike have the same names taken. -/
lemma ScopesAlike.any_iff {bs cs : List Binding} (h : ScopesAlike same bs cs) (name : Text) :
    bs.any (·.name = name) = true ↔ cs.any (·.name = name) = true := by
  have hmem : ∀ ds : List Binding, ds.any (·.name = name) = true ↔ name ∈ bound ds := by
    simp [bound]
  rw [hmem, hmem, h.bound_eq]

lemma alike_extend {scope scope' : List Binding} {bs cs : List (Position × Binding)}
    (hscope : ScopesAlike same scope scope') (hbound : List.Forall₂
      (fun b c => PlacesAlike fail b.1 c.1 ∧ BindingAlike same b.2 c.2) bs cs) :
    Alike (ScopesAlike same) fail (extend scope bs) (extend scope' cs) := by
  induction hbound generalizing scope scope' with
  | nil => exact hscope
  | @cons b c _ _ hbc _ ih =>
    obtain ⟨hplace, hname, hformula⟩ := hbc
    have htaken := hscope.any_iff b.2.name
    rw [extend, extend]
    rw [hname] at htaken ⊢
    refine .ite htaken (fun _ => hplace _) fun _ => ?_
    exact ih (List.rel_append hscope (.cons ⟨hname, hformula⟩ .nil))

lemma alike_reject (place : Text) {s t : Statement} (h : StatementAlike same fail s t) :
    Alike (fun _ _ => True) fail (reject place s) (reject place t) := by
  cases h with
  | other kind hplace => exact .ite Iff.rfl (fun _ => trivial) fun _ => hplace _
  | expression hplace hvalue => exact hvalue.bind fun _ _ _ => hplace _
  | declare hplace | ret hplace | exportDefault hplace | exportNamed hplace
  | misplaced kind hplace => exact hplace _

/-! ### Function bodies -/

lemma alike_push {b c : Body} {s t : Statement} (hbc : BodyAlike same fail b c)
    (hst : StatementAlike same fail s t) :
    Alike (BodyAlike same fail) fail (b.push s) (c.push t) := by
  have hrejected : Alike (BodyAlike same fail) fail
      (reject "a function body" s >>= fun _ => .ok b)
      (reject "a function body" t >>= fun _ => .ok c) :=
    (alike_reject _ hst).bind fun _ _ _ => hbc
  cases hst with
  | declare place late bound =>
    have hempty : b.returns.isEmpty = c.returns.isEmpty := by
      rw [Bool.eq_iff_iff, List.isEmpty_iff_length_eq_zero, List.isEmpty_iff_length_eq_zero,
        hbc.returns.length_eq]
    refine .ite (by rw [hempty]) (fun _ => late) fun _ => ?_
    refine bound.bind fun bs cs hbs => ?_
    exact (alike_extend hbc.scope hbs).bind fun _ _ hscope => ⟨hscope, hbc.returns⟩
  | ret place value => exact ⟨hbc.scope, List.rel_append hbc.returns (.cons ⟨place, value⟩ .nil)⟩
  | _ => exact hrejected

/-- Function bodies come out alike if their statements do, as long as formulas stay alike with
names bound around them. -/
theorem alike_block {p q : Position} {ss ts : List Statement} (hplace : PlacesAlike fail p q)
    (hstatements : List.Forall₂ (StatementAlike same fail) ss ts)
    (hlet : ∀ bs cs t u, ScopesAlike same bs cs → same t u → same (letIn bs t) (letIn cs u)) :
    Alike same fail (block p ss) (block q ts) := by
  have hrun : Alike (BodyAlike same fail) fail (ss.foldlM Body.push {}) (ts.foldlM Body.push {}) :=
    .foldlM hstatements (fun _ _ hst _ _ hbc => alike_push hbc hst) ⟨.nil, .nil⟩
  refine hrun.bind fun b c hbc => ?_
  obtain ⟨scope, returns⟩ := b
  obtain ⟨scope', returns'⟩ := c
  obtain ⟨hscope, hreturns⟩ := hbc
  cases hreturns with
  | nil => exact hplace _
  | cons hfirst hrest =>
    cases hrest with
    | nil => exact hfirst.2.bind fun t u htu => hlet _ _ t u hscope htu
    | cons hsecond hlater =>
      have hcount := hlater.length_eq
      simp only [List.length_cons, hcount]
      exact hsecond.1 _

/-! ### Modules -/

lemma alike_modulePush {m k : Module} {s t : Statement} (hmk : ModuleAlike same fail m k)
    (hst : StatementAlike same fail s t) :
    Alike (ModuleAlike same fail) fail (m.push s) (k.push t) := by
  have hrejected : Alike (ModuleAlike same fail) fail
      (reject "the module top level" s >>= fun _ => .ok m)
      (reject "the module top level" t >>= fun _ => .ok k) :=
    (alike_reject _ hst).bind fun _ _ _ => hmk
  cases hst with
  | declare place late bound =>
    refine bound.bind fun bs cs hbs => ?_
    exact (alike_extend hmk.scope hbs).bind fun _ _ hscope => ⟨hscope, hmk.main, hmk.named⟩
  | exportDefault place value =>
    have hsome : ∀ x y, Option.Rel (Alike same fail) x y →
        (x.isSome = true ↔ y.isSome = true) := by
      intro x y hxy
      cases hxy <;> simp
    exact .ite (hsome _ _ hmk.main) (fun _ => place _) fun _ => ⟨hmk.scope, .some value, hmk.named⟩
  | exportNamed place bound =>
    exact ⟨hmk.scope, hmk.main, List.rel_append hmk.named (.cons ⟨place, bound⟩ .nil)⟩
  | _ => exact hrejected

lemma alike_exportAll {scope scope' done done' : List Binding} {p q : Position}
    {bs cs : List (Position × Binding)} (hscope : ScopesAlike same scope scope')
    (hplace : PlacesAlike fail p q) (hdone : ScopesAlike same done done')
    (hbound : List.Forall₂ (fun b c => PlacesAlike fail b.1 c.1 ∧ BindingAlike same b.2 c.2) bs cs)
    (hlet : ∀ bs cs t u, ScopesAlike same bs cs → same t u → same (letIn bs t) (letIn cs u)) :
    Alike (ScopesAlike same) fail (exportAll scope p done bs) (exportAll scope' q done' cs) := by
  induction hbound generalizing done done' with
  | nil => exact hdone
  | @cons b c _ _ hbc _ ih =>
    obtain ⟨-, hname, hformula⟩ := hbc
    have htaken := hdone.any_iff b.2.name
    have hwrapped := hlet _ _ _ _ hscope hformula
    rw [exportAll, exportAll]
    rw [hname] at htaken ⊢
    refine .ite htaken (fun _ => hplace _) fun _ => ?_
    exact ih (List.rel_append hdone (.cons ⟨rfl, hwrapped⟩ .nil))

/-- Modules come out alike if their statements do. -/
theorem alike_compile {mode mode' : MemberMode} {p q : Program}
    (hplace : PlacesAlike fail p.pos q.pos)
    (hstatements : List.Forall₂ (StatementAlike same fail) (statements mode p.body)
      (statements mode' q.body))
    (hlet : ∀ bs cs t u, ScopesAlike same bs cs → same t u → same (letIn bs t) (letIn cs u)) :
    Alike (UnitsAlike same) fail (compile mode p) (compile mode' q) := by
  have hrun : Alike (ModuleAlike same fail) fail
      ((statements mode p.body).foldlM Module.push {})
      ((statements mode' q.body).foldlM Module.push {}) :=
    .foldlM hstatements (fun _ _ hst _ _ hmk => alike_modulePush hmk hst) ⟨.nil, .none, .nil⟩
  refine hrun.bind fun m k hmk => ?_
  obtain ⟨scope, main, named⟩ := m
  obtain ⟨scope', main', named'⟩ := k
  obtain ⟨hscope, hmain, hnamed⟩ := hmk
  cases hmain with
  | none => exact hplace _
  | some hvalue =>
    have hexports :
        Alike (ScopesAlike same) fail (exports scope named) (exports scope' named') := by
      refine .foldlM hnamed (fun d e hde done done' hdone => ?_) .nil
      exact hde.2.bind fun bs cs hbs => alike_exportAll hscope hde.1 hdone hbs hlet
    refine hvalue.bind fun t u htu => hexports.bind fun es es' hes => ?_
    exact ⟨hscope, htu, hes⟩

/-- Units that are alike are written alike, or both bind the reserved name. -/
lemma alike_ofUnit {shape : OutputMode} {p q : Position} {u v : CompiledUnit}
    (hplace : PlacesAlike fail p q) (huv : UnitsAlike same u v) :
    Alike (fun _ _ => True) fail (Output.ofUnit shape p u) (Output.ofUnit shape q v) := by
  cases shape with
  | packed => trivial
  | unpacked =>
    exact .ite (huv.bindings.any_iff mainName) (fun _ => hplace _) fun _ => trivial

end SheetFormula.Formula
