import Mathlib.Data.List.Nodup
import SheetFormula.Formula.Unit
import SheetFormula.Proofs.Result
import SheetFormula.Proofs.Text
import SheetFormula.Proofs.Tree.Parts

/-!
# Bodies of functions and modules

What the lowering of lists of nodes comes to: the names of parameters, the bindings of
declarations, and the scope that a body has collected after its last statement. A body is read
statement by statement; what one statement does to it is said once, and the whole run follows.
-/

namespace SheetFormula

namespace Node

/-- The name of a plain identifier. -/
def name? : Node → Option Text
  | identifier _ name => some name
  | _ => none

/-- The names that a declaration gives to values. -/
def declarators : Node → List (Declarator Node)
  | declaration _ _ ds => ds
  | _ => []

def isDeclaration : Node → Bool
  | declaration .. => true
  | _ => false

def isReturn : Node → Bool
  | ret .. => true
  | _ => false

def isEmptyStatement : Node → Bool
  | other _ kind => kind = "EmptyStatement"
  | _ => false

def isExportDefault : Node → Bool
  | exportDefault .. => true
  | _ => false

def isExportNamed : Node → Bool
  | exportNamed .. => true
  | _ => false

end Node

/-- All names declared by the statements of a body, in order. -/
def declaratorsIn (body : List Node) : List (Declarator Node) := body.flatMap Node.declarators

@[simp] lemma declaratorsIn_nil : declaratorsIn [] = [] := rfl

@[simp] lemma declaratorsIn_cons (n : Node) (rest : List Node) :
    declaratorsIn (n :: rest) = n.declarators ++ declaratorsIn rest := rfl

def bound (bs : List Binding) : List Text := bs.map (·.name)

lemma bound_append (bs cs : List Binding) : bound (bs ++ cs) = bound bs ++ bound cs :=
  List.map_append

lemma nodup_bound_of_append {bs cs : List Binding} (h : (bound (bs ++ cs)).Nodup) :
    (bound bs).Nodup := by
  rw [bound_append] at h
  exact h.of_append_left

namespace Formula

/-- Names around a formula are arguments of one call. -/
lemma letIn_eq_call {bs : List Binding} (hne : bs ≠ []) (t : Text) :
    letIn bs t = call "LET" (bs.flatMap (fun b => [b.name, b.formula]) ++ [t]) := by
  have harguments : ∀ cs : List Binding,
      Text.join ", " (cs.flatMap (fun b => [b.name, b.formula]) ++ [t]) =
        cs.flatMap Binding.argument ++ t := by
    intro cs
    induction cs with
    | nil => simp [Text.join]
    | cons c rest ih =>
      have hlater : rest.flatMap (fun b => [b.name, b.formula]) ++ [t] ≠ [] := by simp
      rw [List.flatMap_cons, List.append_assoc, List.cons_append, List.singleton_append,
        Text.join_cons_of_ne_nil (List.cons_ne_nil _ _), Text.join_cons_of_ne_nil hlater, ih]
      simp [Binding.argument]
  have hopen : ("LET(" : Text) = "LET" ++ "(" := by decide
  rw [letIn, if_neg (by simpa using hne), call, harguments, List.append_assoc _ _ t, hopen]

@[simp] lemma statements_eq_map (mode : MemberMode) (ns : List Node) :
    statements mode ns = ns.map (statement mode) := by
  induction ns with
  | nil => rfl
  | cons n rest ih => simp [statements, ih]

/-! ### Lists of nodes -/

lemma lowerAll_cons_eq_ok {mode : MemberMode} {n : Node} {rest : List Node} {ts : List Text} :
    lowerAll mode (n :: rest) = .ok ts ↔
      ∃ x xs, lower mode n = .ok x ∧ lowerAll mode rest = .ok xs ∧ ts = x.formula :: xs := by
  simp only [lowerAll, Result.bind_eq_ok, Result.pure_eq_ok]
  constructor
  · rintro ⟨x, hx, xs, hxs, rfl⟩
    exact ⟨x, xs, hx, hxs, rfl⟩
  · rintro ⟨x, xs, hx, hxs, rfl⟩
    exact ⟨x, hx, xs, hxs, rfl⟩

/-- A list has formulas if each of its nodes has one. -/
lemma lowerAll_isOk_iff {mode : MemberMode} {ns : List Node} :
    (∃ ts, lowerAll mode ns = .ok ts) ↔ ∀ n ∈ ns, ∃ x, lower mode n = .ok x := by
  induction ns with
  | nil => simp [lowerAll]
  | cons n rest ih =>
    rw [List.forall_mem_cons, ← ih]
    constructor
    · rintro ⟨ts, h⟩
      obtain ⟨x, xs, hx, hxs, -⟩ := lowerAll_cons_eq_ok.mp h
      exact ⟨⟨x, hx⟩, xs, hxs⟩
    · rintro ⟨⟨x, hx⟩, xs, hxs⟩
      exact ⟨_, lowerAll_cons_eq_ok.mpr ⟨x, xs, hx, hxs, rfl⟩⟩

/-- Parameters have names if all of them are plain identifiers. -/
lemma parameters_eq_ok {ps : List Node} {names : List Text} :
    parameters ps = .ok names ↔ ps.map Node.name? = names.map some := by
  induction ps generalizing names with
  | nil => cases names <;> simp [parameters]
  | cons p rest ih =>
    cases p with
    | identifier pos name =>
      cases names with
      | nil => simp [parameters, Node.name?]
      | cons first others => simp [parameters, Node.name?, ih, and_comm]
    | _ => cases names <;> simp [parameters, Node.name?]

lemma parameters_isOk_iff {ps : List Node} :
    (∃ names, parameters ps = .ok names) ↔ ∀ p ∈ ps, p.name?.isSome := by
  simp only [parameters_eq_ok]
  constructor
  · rintro ⟨names, h⟩ p hp
    have hmem : p.name? ∈ names.map some := h ▸ List.mem_map_of_mem hp
    obtain ⟨name, -, hname⟩ := List.mem_map.mp hmem
    exact Option.isSome_iff_exists.mpr ⟨name, hname.symm⟩
  · intro h
    refine ⟨ps.filterMap Node.name?, ?_⟩
    induction ps with
    | nil => rfl
    | cons p rest ih =>
      obtain ⟨hp, hrest⟩ := List.forall_mem_cons.mp h
      obtain ⟨name, hname⟩ := Option.isSome_iff_exists.mp hp
      simp [hname, ih hrest]

/-! ### Declarations -/

lemma binding_eq_ok {mode : MemberMode} {d : Declarator Node} {b : Binding} :
    binding mode d = .ok b ↔ d.id.name? = some b.name ∧
      ∃ init x, d.init = some init ∧ lower mode init = .ok x ∧ x.formula = b.formula := by
  obtain ⟨pos, id, init⟩ := d
  obtain ⟨name, formula⟩ := b
  cases id with
  | identifier p n =>
    cases init with
    | none => simp [binding]
    | some init =>
      simp only [binding, Result.bind_eq_ok, Result.pure_eq_ok, Node.name?, Binding.mk.injEq,
        Option.some.injEq]
      constructor
      · rintro ⟨x, hx, hn, hf⟩
        exact ⟨hn, init, x, rfl, hx, hf⟩
      · rintro ⟨hn, _, x, rfl, hx, hf⟩
        exact ⟨x, hx, hn, hf⟩
  | _ => cases init <;> simp [binding, Node.name?]

lemma bindings_cons_eq_ok {mode : MemberMode} {d : Declarator Node}
    {rest : List (Declarator Node)} {bs : List (Position × Binding)} :
    bindings mode (d :: rest) = .ok bs ↔
      ∃ b cs, binding mode d = .ok b ∧ bindings mode rest = .ok cs ∧ bs = (d.pos, b) :: cs := by
  simp only [bindings, Result.bind_eq_ok, Result.pure_eq_ok]
  constructor
  · rintro ⟨b, hb, cs, hcs, rfl⟩
    exact ⟨b, cs, hb, hcs, rfl⟩
  · rintro ⟨b, cs, hb, hcs, rfl⟩
    exact ⟨b, hb, cs, hcs, rfl⟩

lemma bindings_append_eq_ok {mode : MemberMode} {ds es : List (Declarator Node)}
    {bs : List (Position × Binding)} :
    bindings mode (ds ++ es) = .ok bs ↔
      ∃ as cs, bindings mode ds = .ok as ∧ bindings mode es = .ok cs ∧ bs = as ++ cs := by
  induction ds generalizing bs with
  | nil => simp [bindings]
  | cons d rest ih =>
    simp only [List.cons_append, bindings_cons_eq_ok, ih]
    constructor
    · rintro ⟨b, _, hb, ⟨as, cs, has, hcs, rfl⟩, rfl⟩
      exact ⟨_, cs, ⟨b, as, hb, has, rfl⟩, hcs, rfl⟩
    · rintro ⟨_, cs, ⟨b, as, hb, has, rfl⟩, hcs, rfl⟩
      exact ⟨b, _, hb, ⟨as, cs, has, hcs, rfl⟩, rfl⟩

/-- Declarations have bindings if each declared name has one. -/
lemma bindings_isOk_iff {mode : MemberMode} {ds : List (Declarator Node)} :
    (∃ bs, bindings mode ds = .ok bs) ↔ ∀ d ∈ ds, ∃ b, binding mode d = .ok b := by
  induction ds with
  | nil => simp [bindings]
  | cons d rest ih =>
    rw [List.forall_mem_cons, ← ih]
    constructor
    · rintro ⟨bs, h⟩
      obtain ⟨b, cs, hb, hcs, -⟩ := bindings_cons_eq_ok.mp h
      exact ⟨⟨b, hb⟩, cs, hcs⟩
    · rintro ⟨⟨b, hb⟩, cs, hcs⟩
      exact ⟨_, bindings_cons_eq_ok.mpr ⟨b, cs, hb, hcs, rfl⟩⟩

/-- Bindings carry the declared names. -/
lemma bound_bindings {mode : MemberMode} {ds : List (Declarator Node)}
    {bs : List (Position × Binding)} (h : bindings mode ds = .ok bs) :
    bound (bs.map (·.2)) = ds.filterMap (·.id.name?) := by
  induction ds generalizing bs with
  | nil =>
    cases h
    rfl
  | cons d rest ih =>
    obtain ⟨b, cs, hb, hcs, rfl⟩ := bindings_cons_eq_ok.mp h
    have hname := (binding_eq_ok.mp hb).1
    have htail := ih hcs
    simp only [bound] at htail
    simp [bound, hname, htail]

/-- A scope takes new bindings exactly if no name is bound twice then. -/
lemma extend_eq_ok {scope : List Binding} {bs : List (Position × Binding)} {after : List Binding}
    (distinct : (bound scope).Nodup) :
    extend scope bs = .ok after ↔
      (bound (scope ++ bs.map (·.2))).Nodup ∧ after = scope ++ bs.map (·.2) := by
  induction bs generalizing scope with
  | nil => simp [extend, distinct, eq_comm]
  | cons b rest ih =>
    obtain ⟨pos, b⟩ := b
    have hsplit : scope ++ ((pos, b) :: rest).map (·.2) = (scope ++ [b]) ++ rest.map (·.2) := by
      simp
    rw [hsplit]
    by_cases h : b.name ∈ bound scope
    · have hany : scope.any (·.name = b.name) = true := by simpa [bound] using h
      have hrepeat : ¬ (bound ((scope ++ [b]) ++ rest.map (·.2))).Nodup := by
        rw [bound_append, bound_append]
        intro hn
        exact (List.nodup_append.mp hn.of_append_left).2.2 b.name h b.name (by simp [bound]) rfl
      rw [extend, if_pos hany]
      constructor
      · intro hbad
        cases hbad
      · intro hok
        exact absurd hok.1 hrepeat
    · have hany : ¬ scope.any (·.name = b.name) = true := by simpa [bound] using h
      have hnew : (bound (scope ++ [b])).Nodup := by
        rw [bound_append]
        refine List.nodup_append.mpr ⟨distinct, by simp [bound], ?_⟩
        intro x hx y hy
        have hy : y = b.name := by simpa [bound] using hy
        exact fun hxy => h (hy ▸ hxy ▸ hx)
      rw [extend, if_neg hany]
      exact ih hnew

/-- Declarations take one scope to another: each name has a binding, and none is bound twice. -/
def Declares (mode : MemberMode) (ds : List (Declarator Node)) (scope after : List Binding) :
    Prop :=
  ∃ bs, bindings mode ds = .ok bs ∧ (bound (scope ++ bs.map (·.2))).Nodup ∧
    after = scope ++ bs.map (·.2)

section Declares

variable {mode : MemberMode} {ds es : List (Declarator Node)} {scope after : List Binding}

lemma Declares.distinct (h : Declares mode ds scope after) : (bound after).Nodup := by
  obtain ⟨bs, -, hnew, rfl⟩ := h
  exact hnew

lemma declares_iff_extend (distinct : (bound scope).Nodup) :
    Declares mode ds scope after ↔
      ∃ bs, bindings mode ds = .ok bs ∧ extend scope bs = .ok after := by
  simp only [Declares, extend_eq_ok distinct]

lemma declares_nil (distinct : (bound scope).Nodup) :
    Declares mode [] scope after ↔ after = scope := by
  simp [Declares, bindings, distinct]

/-- Declarations in a row extend a scope one after the other. -/
lemma declares_append :
    Declares mode (ds ++ es) scope after ↔
      ∃ mid, Declares mode ds scope mid ∧ Declares mode es mid after := by
  constructor
  · rintro ⟨_, hbs, hall, rfl⟩
    obtain ⟨as, cs, has, hcs, rfl⟩ := bindings_append_eq_ok.mp hbs
    rw [List.map_append, ← List.append_assoc] at hall ⊢
    exact ⟨_, ⟨as, has, nodup_bound_of_append hall, rfl⟩, cs, hcs, hall, rfl⟩
  · rintro ⟨_, ⟨as, has, -, rfl⟩, cs, hcs, hall, rfl⟩
    refine ⟨as ++ cs, bindings_append_eq_ok.mpr ⟨as, cs, has, hcs, rfl⟩, ?_⟩
    rw [List.map_append, ← List.append_assoc]
    exact ⟨hall, rfl⟩

end Declares

/-! ### Function bodies -/

/-- Whether a statement may come next in a function body, after a return or not. -/
def Allowed (returned : Bool) : Node → Prop
  | .declaration .. => returned = false
  | .ret .. => True
  | n => n.isEmptyStatement = true

/-- Whether statements may follow each other in a function body. -/
def Orderly : (returned : Bool) → List Node → Prop
  | _, [] => True
  | returned, n :: rest => Allowed returned n ∧ Orderly (returned || n.isReturn) rest

/-- What a node returns from the body it stands in. -/
def returnOf (mode : MemberMode) : Node → List (Position × Except Diagnostic Text)
  | .ret pos argument => [(pos, returned mode pos argument)]
  | _ => []

/-- Everything that a body returns, in order. -/
def returnsIn (mode : MemberMode) (body : List Node) :
    List (Position × Except Diagnostic Text) := body.flatMap (returnOf mode)

lemma isEmpty_append_returnOf (mode : MemberMode) (n : Node)
    (rs : List (Position × Except Diagnostic Text)) :
    (!(rs ++ returnOf mode n).isEmpty) = (!rs.isEmpty || n.isReturn) := by
  cases n <;> simp [returnOf, Node.isReturn]

/-- What one statement does to a function body. -/
lemma push_eq_ok {mode : MemberMode} {n : Node} {b after : Body}
    (distinct : (bound b.scope).Nodup) :
    b.push (statement mode n) = .ok after ↔ Allowed (!b.returns.isEmpty) n ∧
      ∃ scope, Declares mode n.declarators b.scope scope ∧
        after = ⟨scope, b.returns ++ returnOf mode n⟩ := by
  cases n with
  | declaration pos keyword ds =>
    by_cases h : b.returns = []
    · have hempty : (!b.returns.isEmpty) = false := by simp [h]
      simp only [statement, Body.push, Allowed, hempty, Bool.false_eq_true, if_false,
        Result.bind_eq_ok, Result.pure_eq_ok, Node.declarators, declares_iff_extend distinct,
        returnOf, List.append_nil, true_and]
      constructor
      · rintro ⟨bs, hbs, scope, hscope, rfl⟩
        exact ⟨scope, ⟨bs, hbs, hscope⟩, rfl⟩
      · rintro ⟨scope, ⟨bs, hbs, hscope⟩, rfl⟩
        exact ⟨bs, hbs, scope, hscope, rfl⟩
    · simp [statement, Body.push, Allowed, h]
  | ret pos argument =>
    simp [statement, Body.push, Allowed, Node.declarators, declares_nil distinct, returnOf, eq_comm]
  | other pos kind =>
    simp [statement, Body.push, reject, Allowed, Node.isEmptyStatement, Node.declarators,
      declares_nil distinct, returnOf, eq_comm (a := b)]
  | _ =>
    simp [statement, Body.push, reject, Allowed, Node.isEmptyStatement]

/-- What a run of statements does to a function body. -/
lemma foldlM_push_eq_ok {mode : MemberMode} {body : List Node} {b after : Body}
    (distinct : (bound b.scope).Nodup) :
    (statements mode body).foldlM Body.push b = .ok after ↔ Orderly (!b.returns.isEmpty) body ∧
      ∃ scope, Declares mode (declaratorsIn body) b.scope scope ∧
        after = ⟨scope, b.returns ++ returnsIn mode body⟩ := by
  -- The invariant is that no name is bound twice so far; each statement keeps it or fails.
  induction body generalizing b with
  | nil =>
    simp only [statements_eq_map, List.map_nil, List.foldlM_nil, Result.pure_eq_ok, Orderly,
      declaratorsIn_nil, declares_nil distinct, true_and]
    simp [returnsIn, eq_comm (a := b)]
  | cons n rest ih =>
    simp only [statements_eq_map, List.map_cons, List.foldlM_cons, Result.bind_eq_ok,
      push_eq_ok distinct, declaratorsIn_cons, declares_append, Orderly] at ih ⊢
    constructor
    · rintro ⟨_, ⟨hallowed, mid, hmid, rfl⟩, hrest⟩
      obtain ⟨horder, scope, hscope, rfl⟩ := (ih hmid.distinct).mp hrest
      rw [isEmpty_append_returnOf] at horder
      exact ⟨⟨hallowed, horder⟩, scope, ⟨mid, hmid, hscope⟩, by simp [returnsIn]⟩
    · rintro ⟨⟨hallowed, horder⟩, scope, ⟨mid, hmid, hscope⟩, rfl⟩
      rw [← isEmpty_append_returnOf mode] at horder
      refine ⟨_, ⟨hallowed, mid, hmid, rfl⟩, (ih hmid.distinct).mpr ⟨horder, scope, hscope, ?_⟩⟩
      simp [returnsIn]

/-- A function body has a formula if its statements are in order, its names are distinct, and
its single return has a value. -/
lemma block_eq_ok {mode : MemberMode} {pos : Position} {body : List Node} {t : Text} :
    block pos (statements mode body) = .ok t ↔ Orderly false body ∧
      ∃ bs p value result, bindings mode (declaratorsIn body) = .ok bs ∧
        (bound (bs.map (·.2))).Nodup ∧ returnsIn mode body = [(p, value)] ∧ value = .ok result ∧
        t = letIn (bs.map (·.2)) result := by
  simp only [block, Result.bind_eq_ok, foldlM_push_eq_ok (b := {}) List.nodup_nil]
  constructor
  · rintro ⟨_, ⟨horder, _, ⟨bs, hbs, hnew, rfl⟩, rfl⟩, hresult⟩
    simp only [List.nil_append] at hresult hnew
    split at hresult
    · simp at hresult
    · rename_i p value hreturns
      simp only [Result.bind_eq_ok, Result.pure_eq_ok] at hresult
      obtain ⟨result, hvalue, rfl⟩ := hresult
      exact ⟨horder, bs, p, value, result, hbs, hnew, hreturns, hvalue, rfl⟩
    · simp at hresult
  · rintro ⟨horder, bs, p, _, result, hbs, hnew, hreturns, rfl, rfl⟩
    refine ⟨_, ⟨horder, _, ⟨bs, hbs, hnew, rfl⟩, rfl⟩, ?_⟩
    simp [hreturns]

/-! ### Modules -/

/-- Whether a statement may come next in a module, after a default export or not. -/
def AllowedOnTop (exported : Bool) : Node → Prop
  | .declaration .. | .exportNamed .. => True
  | .exportDefault .. => exported = false
  | n => n.isEmptyStatement = true

/-- Whether statements may follow each other in a module. -/
def OrderlyOnTop : (exported : Bool) → List Node → Prop
  | _, [] => True
  | exported, n :: rest =>
    AllowedOnTop exported n ∧ OrderlyOnTop (exported || n.isExportDefault) rest

/-- What a node exports by default from the module it stands in. -/
def defaultOf (mode : MemberMode) : Node → Option (Except Diagnostic Text)
  | .exportDefault _ inner => some ((lower mode inner).map (·.formula))
  | _ => none

/-- What a node exports by name from the module it stands in. -/
def namedOf (mode : MemberMode) :
    Node → List (Position × Except Diagnostic (List (Position × Binding)))
  | .exportNamed pos inner => [(pos, exported mode pos inner)]
  | _ => []

/-- Everything that a module exports by name, in order. -/
def namedIn (mode : MemberMode) (body : List Node) :
    List (Position × Except Diagnostic (List (Position × Binding))) := body.flatMap (namedOf mode)

lemma isSome_or_defaultOf (mode : MemberMode) (n : Node) (main : Option (Except Diagnostic Text)) :
    (main.or (defaultOf mode n)).isSome = (main.isSome || n.isExportDefault) := by
  cases n <;> cases main <;> simp [defaultOf, Node.isExportDefault]

/-- What one statement does to a module. -/
lemma modulePush_eq_ok {mode : MemberMode} {n : Node} {m after : Module}
    (distinct : (bound m.scope).Nodup) :
    m.push (statement mode n) = .ok after ↔ AllowedOnTop m.main.isSome n ∧
      ∃ scope, Declares mode n.declarators m.scope scope ∧
        after = ⟨scope, m.main.or (defaultOf mode n), m.named ++ namedOf mode n⟩ := by
  cases n with
  | declaration pos keyword ds =>
    simp only [statement, Module.push, AllowedOnTop, Result.bind_eq_ok, Result.pure_eq_ok,
      Node.declarators, declares_iff_extend distinct, defaultOf, namedOf, Option.or_none,
      List.append_nil, true_and]
    constructor
    · rintro ⟨bs, hbs, scope, hscope, rfl⟩
      exact ⟨scope, ⟨bs, hbs, hscope⟩, rfl⟩
    · rintro ⟨scope, ⟨bs, hbs, hscope⟩, rfl⟩
      exact ⟨bs, hbs, scope, hscope, rfl⟩
  | exportDefault pos inner =>
    cases h : m.main with
    | none =>
      simp [statement, Module.push, AllowedOnTop, h, Node.declarators, declares_nil distinct,
        defaultOf, namedOf, eq_comm]
    | some main => simp [statement, Module.push, AllowedOnTop, h]
  | exportNamed pos inner =>
    simp [statement, Module.push, AllowedOnTop, Node.declarators, declares_nil distinct, defaultOf,
      namedOf, eq_comm]
  | other pos kind =>
    simp [statement, Module.push, reject, AllowedOnTop, Node.isEmptyStatement, Node.declarators,
      declares_nil distinct, defaultOf, namedOf, eq_comm (a := m)]
  | _ =>
    simp [statement, Module.push, reject, AllowedOnTop, Node.isEmptyStatement]

/-- What a run of statements does to a module. -/
lemma foldlM_modulePush_eq_ok {mode : MemberMode} {body : List Node} {m after : Module}
    (distinct : (bound m.scope).Nodup) :
    (statements mode body).foldlM Module.push m = .ok after ↔
      OrderlyOnTop m.main.isSome body ∧
      ∃ scope, Declares mode (declaratorsIn body) m.scope scope ∧
        after = ⟨scope, m.main.or (body.findSome? (defaultOf mode)),
          m.named ++ namedIn mode body⟩ := by
  induction body generalizing m with
  | nil =>
    simp only [statements_eq_map, List.map_nil, List.foldlM_nil, Result.pure_eq_ok, OrderlyOnTop,
      declaratorsIn_nil, declares_nil distinct, true_and]
    simp [namedIn, eq_comm (a := m)]
  | cons n rest ih =>
    have hmain : m.main.or ((n :: rest).findSome? (defaultOf mode)) =
        (m.main.or (defaultOf mode n)).or (rest.findSome? (defaultOf mode)) := by
      cases h : defaultOf mode n <;> simp [h]
    simp only [statements_eq_map, List.map_cons, List.foldlM_cons, Result.bind_eq_ok,
      modulePush_eq_ok distinct, declaratorsIn_cons, declares_append, OrderlyOnTop, hmain] at ih ⊢
    constructor
    · rintro ⟨_, ⟨hallowed, mid, hmid, rfl⟩, hrest⟩
      obtain ⟨horder, scope, hscope, rfl⟩ := (ih hmid.distinct).mp hrest
      rw [isSome_or_defaultOf] at horder
      exact ⟨⟨hallowed, horder⟩, scope, ⟨mid, hmid, hscope⟩, by simp [namedIn]⟩
    · rintro ⟨⟨hallowed, horder⟩, scope, ⟨mid, hmid, hscope⟩, rfl⟩
      rw [← isSome_or_defaultOf mode] at horder
      refine ⟨_, ⟨hallowed, mid, hmid, rfl⟩, (ih hmid.distinct).mpr ⟨horder, scope, hscope, ?_⟩⟩
      simp [namedIn]

/-- A binding with the module bindings around its formula. -/
def wrapped (scope : List Binding) (b : Position × Binding) : Position × Binding :=
  (b.1, ⟨b.2.name, letIn scope b.2.formula⟩)

/-- Exports are collected as a scope is. -/
lemma exportAll_eq_ok {scope done after : List Binding} {pos : Position}
    {bs : List (Position × Binding)} :
    exportAll scope pos done bs = .ok after ↔ extend done (bs.map (wrapped scope)) = .ok after := by
  induction bs generalizing done with
  | nil => simp [exportAll, extend]
  | cons b rest ih =>
    by_cases h : done.any (·.name = b.2.name) = true
    · simp only [exportAll, List.map_cons, wrapped, extend, if_pos h]
      simp
    · simp only [exportAll, List.map_cons, wrapped, extend, if_neg h]
      exact ih

lemma bound_wrapped (scope : List Binding) (bs : List (Position × Binding)) :
    bound ((bs.map (wrapped scope)).map (·.2)) = bound (bs.map (·.2)) := by
  simp [bound, wrapped]

lemma foldlM_exportAll_eq_ok {scope done es : List Binding}
    {named : List (Position × Except Diagnostic (List (Position × Binding)))}
    (distinct : (bound done).Nodup) :
    named.foldlM (fun done (pos, bindings) => do exportAll scope pos done (← bindings)) done
        = .ok es ↔
      ∃ bs : List (List (Position × Binding)), named.map (·.2) = bs.map .ok ∧
        (bound (done ++ (bs.flatten.map (wrapped scope)).map (·.2))).Nodup ∧
        es = done ++ (bs.flatten.map (wrapped scope)).map (·.2) := by
  induction named generalizing done with
  | nil => simp [distinct, eq_comm (a := done)]
  | cons first rest ih =>
    obtain ⟨pos, found⟩ := first
    simp only [List.foldlM_cons, Result.bind_eq_ok, exportAll_eq_ok, extend_eq_ok distinct]
    constructor
    · rintro ⟨_, ⟨as, rfl, hnew, rfl⟩, hrest⟩
      obtain ⟨bs, hbs, hall, rfl⟩ := (ih hnew).mp hrest
      refine ⟨as :: bs, by simp [hbs], ?_⟩
      simpa using hall
    · rintro ⟨_ | ⟨as, bs⟩, hbs, hall, rfl⟩
      · simp at hbs
      · simp only [List.map_cons, List.cons.injEq] at hbs
        rw [List.flatten_cons, List.map_append, List.map_append, ← List.append_assoc] at hall
        have hnew := nodup_bound_of_append hall
        refine ⟨_, ⟨as, hbs.1, hnew, rfl⟩, (ih hnew).mpr ⟨bs, hbs.2, hall, ?_⟩⟩
        simp

/-- Named exports have formulas if each has one and their names are distinct. -/
lemma exports_eq_ok {scope es : List Binding}
    {named : List (Position × Except Diagnostic (List (Position × Binding)))} :
    exports scope named = .ok es ↔
      ∃ bs : List (List (Position × Binding)), named.map (·.2) = bs.map .ok ∧
        (bound (bs.flatten.map (·.2))).Nodup ∧
        es = (bs.flatten.map (wrapped scope)).map (·.2) := by
  simpa only [exports, List.nil_append, bound_wrapped] using
    @foldlM_exportAll_eq_ok scope [] es named List.nodup_nil

/-- A module compiles if its statements are in order, its names are distinct, and its default
export and its named exports have formulas. -/
lemma compile_eq_ok {mode : MemberMode} {p : Program} {u : CompiledUnit} :
    compile mode p = .ok u ↔ OrderlyOnTop false p.body ∧
      ∃ bs value main es, bindings mode (declaratorsIn p.body) = .ok bs ∧
        (bound (bs.map (·.2))).Nodup ∧ p.body.findSome? (defaultOf mode) = some value ∧
        value = .ok main ∧ exports (bs.map (·.2)) (namedIn mode p.body) = .ok es ∧
        u = ⟨bs.map (·.2), main, es⟩ := by
  simp only [compile, Result.bind_eq_ok, foldlM_modulePush_eq_ok (m := {}) List.nodup_nil]
  constructor
  · rintro ⟨_, ⟨horder, _, ⟨bs, hbs, hnew, rfl⟩, rfl⟩, hunit⟩
    simp only [List.nil_append, Option.none_or] at hunit hnew
    split at hunit
    · simp at hunit
    · rename_i value hmain
      simp only [Result.bind_eq_ok, Result.pure_eq_ok] at hunit
      obtain ⟨main, hvalue, es, hes, rfl⟩ := hunit
      exact ⟨horder, bs, value, main, es, hbs, hnew, hmain, hvalue, hes, rfl⟩
  · rintro ⟨horder, bs, _, main, es, hbs, hnew, hmain, rfl, hes, rfl⟩
    refine ⟨_, ⟨horder, _, ⟨bs, hbs, hnew, rfl⟩, rfl⟩, ?_⟩
    simp [hmain, hes]

end Formula

end SheetFormula
