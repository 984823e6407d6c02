import Mathlib.Data.List.Nodup
import SheetFormula.Proofs.Formula.MemberModes
import SheetFormula.Proofs.Formula.Unit

/-!
# Values in the order of lowering

Apart from its own form, a node is only as good as its values: the nodes that its formula is made
of. They are lowered one after the other, so a node in good form fails as the first of its values
that fails, and has a formula if all of them have. In a function body the declared values come
first, and in a module they come before the default export and the named exports, in whatever order
the statements are written.
-/

namespace SheetFormula

/-- The values of declared names, in order. -/
def initsOf (ds : List (Declarator Node)) : List Node := ds.filterMap (·.init)

/-- The plain names among declared names, in order. -/
def namesOf (ds : List (Declarator Node)) : List Text := ds.filterMap (·.id.name?)

/-- What a node returns from the body that it stands in. -/
def Node.returned? : Node → Option Node
  | ret _ argument => argument
  | _ => none

/-- The nodes that the formula of a node is made of, in the order in which they are lowered. -/
def Node.values : Node → List Node
  | binary _ left _ right => [left, right]
  | conditional _ test consequent alternate => [test, consequent, alternate]
  | call _ callee arguments => callee :: arguments
  | member _ object property _ => [object, property]
  | sequence _ expressions => expressions
  | arrow _ _ body => [body]
  | block _ body => initsOf (declaratorsIn body) ++ body.filterMap Node.returned?
  | ret _ argument => argument.toList
  | expression _ inner | exportDefault _ inner => [inner]
  | _ => []

/-- The nodes that the unit of a module is made of, in the order in which they are lowered. -/
def Program.values (p : Program) : List Node :=
  initsOf (declaratorsIn p.body) ++ (defaultsIn p.body ++ initsOf (exportedIn p.body))

/-- Whether a node is in good form, its values aside. -/
def Node.InForm : Node → Prop
  | identifier .. | literal .. | conditional .. | call .. | member .. | sequence ..
  | expression .. | exportDefault .. => True
  | binary _ _ operator _ => operator ∈ Formula.operators
  | arrow _ params _ => ∀ p ∈ params, p.name?.isSome
  | block _ body => BodyShape body
  | ret _ argument => argument.isSome
  | _ => False

/-- Names that can be declared where some names are taken: plain and new ones that have values. -/
structure Declarable (taken : List Text) (ds : List (Declarator Node)) : Prop where
  plainNames : ∀ d ∈ ds, d.id.name?.isSome
  haveValues : ∀ d ∈ ds, d.init.isSome
  distinct : (taken ++ namesOf ds).Nodup

/-- Whether a module is in good form, the values in it aside. -/
structure Program.InForm (p : Program) : Prop where
  shape : ModuleShape p.body
  declarable : Declarable [] (declaratorsIn p.body)
  exportable : Declarable [] (exportedIn p.body)

lemma namesOf_append (ds es : List (Declarator Node)) :
    namesOf (ds ++ es) = namesOf ds ++ namesOf es :=
  List.filterMap_append

lemma initsOf_flatMap (body : List Node) (f : Node → List (Declarator Node)) :
    initsOf (body.flatMap f) = body.flatMap fun n => initsOf (f n) :=
  List.filterMap_flatMap

namespace Declarable

variable {taken : List Text} {ds es : List (Declarator Node)}

lemma left (h : Declarable taken (ds ++ es)) : Declarable taken ds := by
  refine ⟨fun d hd => h.plainNames d (List.mem_append_left es hd),
    fun d hd => h.haveValues d (List.mem_append_left es hd), ?_⟩
  have hdistinct := h.distinct
  rw [namesOf_append, ← List.append_assoc] at hdistinct
  exact hdistinct.of_append_left

lemma right (h : Declarable taken (ds ++ es)) : Declarable (taken ++ namesOf ds) es := by
  refine ⟨fun d hd => h.plainNames d (List.mem_append_right ds hd),
    fun d hd => h.haveValues d (List.mem_append_right ds hd), ?_⟩
  rw [List.append_assoc, ← namesOf_append]
  exact h.distinct

end Declarable

/-- The form of a function body: the order of its statements, its only return, and its names. -/
lemma bodyShape_iff {body : List Node} :
    BodyShape body ↔ Formula.Orderly false body ∧ body.countP Node.isReturn = 1 ∧
      (∀ n ∈ body, n.isReturn → n.returned?.isSome) ∧ Declarable [] (declaratorsIn body) := by
  rw [Formula.orderly_iff]
  constructor
  · intro h
    refine ⟨⟨h.kinds, by simp, h.returnsLast⟩, h.singleReturn, ?_, h.plainNames, h.haveValues,
      h.distinct⟩
    intro n hn hreturn
    cases n with
    | ret pos argument => exact h.returnsValue pos argument hn
    | _ => cases hreturn
  · rintro ⟨⟨hkinds, -, hlast⟩, hsingle, hvalue, hdeclarable⟩
    refine ⟨hkinds, hsingle, hlast, ?_, hdeclarable.plainNames, hdeclarable.haveValues,
      hdeclarable.distinct⟩
    intro pos argument hmem
    exact hvalue _ hmem rfl

namespace Formula

open Result (Alike)

variable {mode : MemberMode}

/-! ### Lists of values -/

lemma Agree.trans {α β γ : Type} {x : Except Diagnostic α} {y : Except Diagnostic β}
    {z : Except Diagnostic γ} (hxy : Agree x y) (hyz : Agree y z) : Agree x z := by
  obtain ⟨a, b, rfl, rfl, -⟩ | ⟨d, _, rfl, rfl, rfl⟩ := hxy.cases_on
  · obtain ⟨b, c, -, rfl, -⟩ | ⟨d, e, hbad, -, -⟩ := hyz.cases_on
    · trivial
    · cases hbad
  · obtain ⟨b, c, hbad, -, -⟩ | ⟨d, _, hd, rfl, rfl⟩ := hyz.cases_on
    · cases hbad
    · cases hd
      rfl

lemma lowerAll_append (ns ms : List Node) :
    lowerAll mode (ns ++ ms) =
      lowerAll mode ns >>= fun ts => (lowerAll mode ms).map fun us => ts ++ us := by
  induction ns with
  | nil =>
    rw [List.nil_append, lowerAll]
    change _ = (lowerAll mode ms).map id
    rw [Except.map_id, id]
  | cons n rest ih =>
    rw [List.cons_append, lowerAll, lowerAll, ih]
    cases lower mode n with
    | error d => rfl
    | ok x =>
      cases lowerAll mode rest with
      | error d => rfl
      | ok ts => cases lowerAll mode ms <;> rfl

/-- A list in which all nodes but one have formulas goes as that node does. -/
lemma agree_lowerAll_single {before after : List Node} {n : Node}
    (hbefore : ∀ m ∈ before, Accepted m) (hafter : ∀ m ∈ after, Accepted m) :
    Agree (lowerAll mode (before ++ n :: after)) (lower mode n) := by
  obtain ⟨ts, hts⟩ := lowerAll_isOk_iff.mpr fun m hm => lower_of_accepted mode (hbefore m hm)
  obtain ⟨us, hus⟩ := lowerAll_isOk_iff.mpr fun m hm => lower_of_accepted mode (hafter m hm)
  rw [lowerAll_append, hts, lowerAll, hus]
  cases lower mode n with
  | error d => rfl
  | ok x => trivial

/-! ### Declarations -/

/-- Declarations of plain names with values fail as their values do. -/
lemma alike_bindings_inits {ds : List (Declarator Node)}
    (hplain : ∀ d ∈ ds, d.id.name?.isSome) (hvalues : ∀ d ∈ ds, d.init.isSome) :
    Alike (fun bs _ => bound (bs.map (·.2)) = namesOf ds) Eq (bindings mode ds)
      (lowerAll mode (initsOf ds)) := by
  induction ds with
  | nil => rfl
  | cons d rest ih =>
    obtain ⟨hname, hrestPlain⟩ := List.forall_mem_cons.mp hplain
    obtain ⟨hvalue, hrestValues⟩ := List.forall_mem_cons.mp hvalues
    obtain ⟨pos, id, init⟩ := d
    obtain ⟨value, rfl⟩ := Option.isSome_iff_exists.mp hvalue
    cases id with
    | identifier p name =>
      have hinits : initsOf (⟨pos, .identifier p name, some value⟩ :: rest) =
          value :: initsOf rest := rfl
      rw [hinits, bindings, binding, lowerAll]
      cases lower mode value with
      | error d => rfl
      | ok x =>
        refine (ih hrestPlain hrestValues).bind fun bs _ hbs => ?_
        have hnames : namesOf (⟨pos, .identifier p name, some value⟩ :: rest) =
            name :: namesOf rest := rfl
        rw [hnames, ← hbs]
        rfl
    | _ => cases hname

/-- A scope takes new names. -/
lemma exists_extend {scope : List Binding} {bs : List (Position × Binding)}
    (h : (bound scope ++ bound (bs.map (·.2))).Nodup) :
    ∃ after, extend scope bs = .ok after ∧ bound after = bound scope ++ bound (bs.map (·.2)) := by
  rw [← bound_append] at h ⊢
  exact ⟨_, (extend_eq_ok (nodup_bound_of_append h)).mpr ⟨h, rfl⟩, rfl⟩

/-- A list of exports takes new names. -/
lemma exists_exportAll {scope done : List Binding} {pos : Position}
    {bs : List (Position × Binding)} (h : (bound done ++ bound (bs.map (·.2))).Nodup) :
    ∃ after, exportAll scope pos done bs = .ok after ∧
      bound after = bound done ++ bound (bs.map (·.2)) := by
  rw [← bound_wrapped scope] at h ⊢
  obtain ⟨after, hafter, hbound⟩ := exists_extend h
  exact ⟨after, exportAll_eq_ok.mpr hafter, hbound⟩

/-- Declarations of declarable names fail as their values do, wherever their bindings are added to
those that are there, as long as new names can be added. -/
lemma alike_declare {there : List Binding} {ds es : List (Declarator Node)}
    {add : List (Position × Binding) → Except Diagnostic (List Binding)}
    (hadd : ∀ bs : List (Position × Binding), (bound there ++ bound (bs.map (·.2))).Nodup →
      ∃ after, add bs = .ok after ∧ bound after = bound there ++ bound (bs.map (·.2)))
    (h : Declarable (bound there) (ds ++ es)) :
    Alike (fun after _ => Declarable (bound after) es) Eq (bindings mode ds >>= add)
      (lowerAll mode (initsOf ds)) := by
  refine (alike_bindings_inits h.left.plainNames h.left.haveValues).bind_left fun bs _ hbs => ?_
  have hnew : (bound there ++ bound (bs.map (·.2))).Nodup := by
    rw [hbs]
    exact h.left.distinct
  obtain ⟨after, hafter, hbound⟩ := hadd bs hnew
  refine ⟨after, hafter, ?_⟩
  rw [hbound, hbs]
  exact h.right

/-! ### Runs -/

/-- A run over nodes fails as the values of the nodes do, one node after the other, if each step
does and keeps an invariant about what is left. -/
lemma alike_run {σ : Type} {f : σ → Node → Except Diagnostic σ} {values : Node → List Node}
    {Inv : σ → List Node → Prop}
    (step : ∀ s n rest, Inv s (n :: rest) →
      Alike (fun s' _ => Inv s' rest) Eq (f s n) (lowerAll mode (values n)))
    {s : σ} {body : List Node} (h : Inv s body) :
    Agree (body.foldlM f s) (lowerAll mode (body.flatMap values)) := by
  induction body generalizing s with
  | nil => trivial
  | cons n rest ih =>
    rw [List.foldlM_cons, List.flatMap_cons, lowerAll_append]
    refine (step s n rest h).bind fun s' ts hs' => ?_
    exact (ih hs').map_right fun _ _ _ => trivial

/-! ### Function bodies -/

/-- What is left of a function body can follow what it has come to. -/
structure Pending (b : Body) (rest : List Node) : Prop where
  orderly : Orderly (!b.returns.isEmpty) rest
  declarable : Declarable (bound b.scope) (declaratorsIn rest)

/-- A statement of a function body fails as the values that it declares. -/
lemma alike_push_inits {b : Body} {n : Node} {rest : List Node} (h : Pending b (n :: rest)) :
    Alike (fun after _ => Pending after rest) Eq (b.push (statement mode n))
      (lowerAll mode (initsOf n.declarators)) := by
  obtain ⟨⟨hallowed, horder⟩, hdeclarable⟩ := h
  cases n with
  | declaration pos keyword ds =>
    have hnone : (!b.returns.isEmpty) = false := hallowed
    have hpush : b.push (statement mode (.declaration pos keyword ds)) =
        (bindings mode ds >>= extend b.scope) >>= fun scope => .ok { b with scope := scope } := by
      rw [bind_assoc, statement, Body.push, hnone]
      rfl
    rw [hpush]
    refine (alike_declare (fun _ => exists_extend) hdeclarable).bind_left fun after _ hafter => ?_
    exact ⟨_, rfl, by simpa [Node.isReturn] using horder, hafter⟩
  | ret pos argument =>
    refine ⟨?_, hdeclarable⟩
    rw [← isEmpty_append_returnOf mode] at horder
    exact horder
  | other pos kind =>
    obtain rfl : kind = "EmptyStatement" := of_decide_eq_true hallowed
    exact ⟨by simpa [Node.isReturn] using horder, hdeclarable⟩
  | _ => cases hallowed

/-- What a body returns is the formulas of the nodes that it returns. -/
lemma returnsIn_eq_map {body : List Node} (h : ∀ n ∈ body, n.isReturn → n.returned?.isSome) :
    (returnsIn mode body).map (·.2) =
      (body.filterMap Node.returned?).map fun n => ofNode mode (some n) := by
  induction body with
  | nil => rfl
  | cons n rest ih =>
    obtain ⟨hn, hlater⟩ := List.forall_mem_cons.mp h
    have hrest := ih hlater
    cases n with
    | ret pos argument =>
      cases argument with
      | none => cases hn rfl
      | some n =>
        have hvalue : returned mode pos (some n) = ofNode mode (some n) := by
          rw [returned, ofNode]
          cases lower mode n <;> rfl
        have hcons : returnsIn mode (.ret pos (some n) :: rest) =
            (pos, ofNode mode (some n)) :: returnsIn mode rest := by
          rw [← hvalue]
          rfl
        rw [hcons, List.map_cons, hrest]
        rfl
    | _ => exact hrest

/-- A function body in good form fails as its values do: first those that it declares, then the one
that it returns. -/
lemma agree_block {pos : Position} {body : List Node} (h : BodyShape body) :
    Agree (block pos (statements mode body))
      (lowerAll mode (initsOf (declaratorsIn body) ++ body.filterMap Node.returned?)) := by
  obtain ⟨horder, hsingle, hvalue, hdeclarable⟩ := bodyShape_iff.mp h
  have hrun : Agree ((statements mode body).foldlM Body.push {})
      (lowerAll mode (initsOf (declaratorsIn body))) := by
    rw [statements_eq_map, List.foldlM_map, declaratorsIn, initsOf_flatMap]
    exact alike_run (fun b n rest => alike_push_inits) ⟨horder, hdeclarable⟩
  rw [block, lowerAll_append]
  -- Returns are kept unread during the run, so the returned value comes after all declared ones.
  obtain ⟨b, ts, hb, hts, -⟩ | ⟨d, _, hd, hd', rfl⟩ := hrun.cases_on
  · obtain ⟨-, scope, -, rfl⟩ := (@foldlM_push_eq_ok mode body {} b List.nodup_nil).mp hb
    obtain ⟨⟨p, value⟩, hreturns⟩ : ∃ r, returnsIn mode body = [r] :=
      List.length_eq_one_iff.mp ((length_returnsIn mode body).trans hsingle)
    have hvalues : [value] = (body.filterMap Node.returned?).map fun n => ofNode mode (some n) := by
      rw [← returnsIn_eq_map hvalue, hreturns, List.map_singleton]
    obtain ⟨n, hn, rfl⟩ := List.map_eq_singleton_iff.mp hvalues.symm
    rw [hb, hts, hn, hreturns, lowerAll, lowerAll, ofNode]
    cases lower mode n with
    | error d => rfl
    | ok x => trivial
  · rw [hd, hd']
    rfl

/-! ### Modules -/

/-- What is left of a module can follow what it has come to. -/
structure PendingOnTop (m : Module) (rest : List Node) : Prop where
  orderly : OrderlyOnTop m.main.isSome rest
  declarable : Declarable (bound m.scope) (declaratorsIn rest)

/-- A statement of a module fails as the values that it declares and does not export. -/
lemma alike_modulePush_inits {m : Module} {n : Node} {rest : List Node}
    (h : PendingOnTop m (n :: rest)) :
    Alike (fun after _ => PendingOnTop after rest) Eq (m.push (statement mode n))
      (lowerAll mode (initsOf n.declarators)) := by
  obtain ⟨⟨hallowed, horder⟩, hdeclarable⟩ := h
  cases n with
  | declaration pos keyword ds =>
    have hpush : m.push (statement mode (.declaration pos keyword ds)) =
        (bindings mode ds >>= extend m.scope) >>= fun scope => .ok { m with scope := scope } := by
      rw [bind_assoc, statement, Module.push]
      rfl
    rw [hpush]
    refine (alike_declare (fun _ => exists_extend) hdeclarable).bind_left fun after _ hafter => ?_
    exact ⟨_, rfl, by simpa [Node.isExportDefault] using horder, hafter⟩
  | exportDefault pos inner =>
    have hnone : m.main.isSome = false := hallowed
    have hpush : m.push (statement mode (.exportDefault pos inner)) =
        .ok { m with main := some ((lower mode inner).map (·.formula)) } := by
      rw [statement, Module.push, hnone]
      rfl
    rw [hpush]
    exact ⟨by simpa [Node.isExportDefault] using horder, hdeclarable⟩
  | exportNamed pos inner =>
    exact ⟨by simpa [Node.isExportDefault] using horder, hdeclarable⟩
  | other pos kind =>
    obtain rfl : kind = "EmptyStatement" := of_decide_eq_true hallowed
    exact ⟨by simpa [Node.isExportDefault] using horder, hdeclarable⟩
  | _ => cases hallowed

/-- The exports so far with those of one more node. -/
def exportNode (mode : MemberMode) (scope done : List Binding) :
    Node → Except Diagnostic (List Binding)
  | .exportNamed pos inner => exported mode pos inner >>= exportAll scope pos done
  | _ => .ok done

lemma exports_namedIn (scope : List Binding) (body : List Node) :
    exports scope (namedIn mode body) = body.foldlM (exportNode mode scope) [] := by
  rw [exports]
  generalize ([] : List Binding) = done
  induction body generalizing done with
  | nil => rfl
  | cons n rest ih =>
    cases n with
    | exportNamed pos inner =>
      have hcons : namedIn mode (.exportNamed pos inner :: rest) =
          (pos, exported mode pos inner) :: namedIn mode rest := rfl
      rw [hcons, List.foldlM_cons, List.foldlM_cons]
      exact bind_congr ih
    | _ => exact ih done

/-- What is left of a module can be exported after what it has exported. -/
structure PendingExports (done : List Binding) (rest : List Node) : Prop where
  declare : ∀ pos inner, .exportNamed pos inner ∈ rest →
    ∃ q keyword d ds, inner = some (.declaration q keyword (d :: ds))
  exportable : Declarable (bound done) (exportedIn rest)

/-- An exported declaration of new names fails as its values do. -/
lemma alike_exportNode {scope done : List Binding} {n : Node} {rest : List Node}
    (h : PendingExports done (n :: rest)) :
    Alike (fun after _ => PendingExports after rest) Eq (exportNode mode scope done n)
      (lowerAll mode (initsOf n.exported)) := by
  obtain ⟨hdeclare, hexportable⟩ := h
  have hrest : ∀ pos inner, .exportNamed pos inner ∈ rest →
      ∃ q keyword d ds, inner = some (.declaration q keyword (d :: ds)) :=
    fun pos inner hmem => hdeclare pos inner (List.mem_cons_of_mem n hmem)
  cases n with
  | exportNamed pos inner =>
    obtain ⟨q, keyword, d, ds, rfl⟩ := hdeclare pos inner List.mem_cons_self
    exact (alike_declare (fun _ => exists_exportAll) hexportable).mono fun _ _ => .mk hrest
  | _ => exact ⟨hrest, hexportable⟩

/-- A module in good form fails as its values do: first those that it declares, then its default
export, then those that it exports by name. -/
theorem agree_compile_values {p : Program} (h : p.InForm) :
    Agree (compile mode p) (lowerAll mode p.values) := by
  have horder : OrderlyOnTop false p.body :=
    orderlyOnTop_iff.mpr ⟨h.shape.kinds, by simp [h.shape.singleDefault]⟩
  have hrun : Agree ((statements mode p.body).foldlM Module.push {})
      (lowerAll mode (initsOf (declaratorsIn p.body))) := by
    rw [statements_eq_map, List.foldlM_map, declaratorsIn, initsOf_flatMap]
    exact alike_run (fun m n rest => alike_modulePush_inits) ⟨horder, h.declarable⟩
  have hexports : ∀ scope, Agree (exports scope (namedIn mode p.body))
      (lowerAll mode (initsOf (exportedIn p.body))) := by
    intro scope
    rw [exports_namedIn, exportedIn, initsOf_flatMap]
    exact alike_run (fun done n rest => alike_exportNode) ⟨h.shape.exportsDeclare, h.exportable⟩
  obtain ⟨main, hmain⟩ : ∃ main, defaultsIn p.body = [main] :=
    List.length_eq_one_iff.mp ((length_defaultsIn p.body).trans h.shape.singleDefault)
  rw [compile, Program.values, lowerAll_append, hmain, List.singleton_append, lowerAll]
  obtain ⟨m, ts, hm, hts, -⟩ | ⟨d, _, hd, hd', rfl⟩ := hrun.cases_on
  · obtain ⟨-, scope, -, rfl⟩ := (@foldlM_modulePush_eq_ok mode p.body {} m List.nodup_nil).mp hm
    rw [hm, hts, findSome_defaultOf, hmain]
    change Agree ((ofNode mode (some main)) >>= _) _
    rw [ofNode]
    cases lower mode main with
    | error d => rfl
    | ok x =>
      refine Alike.map_right (p := fun _ _ => True) ?_ fun _ _ _ => trivial
      exact (hexports scope).bind fun _ _ _ => trivial
  · rw [hd, hd']
    rfl

/-! ### Nodes -/

/-- A node in good form fails as the first of its values that fails, and has a formula if all of
them have. -/
theorem agree_lower_values {n : Node} (h : n.InForm) :
    Agree (lower mode n) (lowerAll mode n.values) := by
  cases n with
  | identifier pos name | literal pos raw => trivial
  | binary pos left operator right =>
    have hknown : operators.contains operator = true := List.contains_iff_mem.mpr h
    rw [lower, if_pos hknown, Node.values, lowerAll, lowerAll, lowerAll]
    cases lower mode left with
    | error d => rfl
    | ok l => cases lower mode right <;> trivial
  | conditional pos test consequent alternate =>
    rw [lower, Node.values, lowerAll, lowerAll, lowerAll, lowerAll]
    cases lower mode test with
    | error d => rfl
    | ok t =>
      cases lower mode consequent with
      | error d => rfl
      | ok c => cases lower mode alternate <;> trivial
  | call pos callee arguments =>
    rw [lower, Node.values, lowerAll]
    cases lower mode callee with
    | error d => rfl
    | ok f => cases lowerAll mode arguments <;> trivial
  | member pos object property computed =>
    rw [lower, Node.values, lowerAll, lowerAll, lowerAll]
    cases lower mode object with
    | error d => rfl
    | ok o => cases lower mode property <;> trivial
  | sequence pos expressions =>
    rw [lower, Node.values]
    cases lowerAll mode expressions <;> trivial
  | arrow pos params body =>
    obtain ⟨names, hnames⟩ := parameters_isOk_iff.mpr h
    rw [lower, hnames, Node.values, lowerAll, lowerAll]
    cases lower mode body <;> trivial
  | block pos body =>
    rw [lower, Node.values]
    exact (agree_block h).map_left fun _ _ _ => trivial
  | ret pos argument =>
    obtain ⟨n, rfl⟩ := Option.isSome_iff_exists.mp h
    rw [lower, returned, Node.values, Option.toList_some, lowerAll, lowerAll]
    cases lower mode n <;> trivial
  | expression pos inner | exportDefault pos inner =>
    rw [lower, Node.values, lowerAll, lowerAll]
    cases lower mode inner <;> trivial
  | _ => cases h

/-- A node has a formula exactly if it is in good form and all of its values have formulas. -/
theorem accepted_iff_values {n : Node} : Accepted n ↔ n.InForm ∧ ∀ c ∈ n.values, Accepted c := by
  constructor
  · intro h
    cases h with
    | identifier | literal => exact ⟨trivial, by simp [Node.values]⟩
    | binary known hleft hright => exact ⟨known, by simp [Node.values, hleft, hright]⟩
    | conditional htest hconsequent halternate =>
      exact ⟨trivial, by simp [Node.values, htest, hconsequent, halternate]⟩
    | call hcallee harguments => exact ⟨trivial, List.forall_mem_cons.mpr ⟨hcallee, harguments⟩⟩
    | member hobject hproperty => exact ⟨trivial, by simp [Node.values, hobject, hproperty]⟩
    | sequence hexpressions => exact ⟨trivial, hexpressions⟩
    | arrow plain hbody => exact ⟨plain, by simp [Node.values, hbody]⟩
    | block shape hvalues hreturn =>
      refine ⟨shape, ?_⟩
      intro c hc
      rcases List.mem_append.mp hc with hc | hc
      · obtain ⟨d, hd, hinit⟩ := List.mem_filterMap.mp hc
        exact hvalues d hd c hinit
      · obtain ⟨s, hs, hreturned⟩ := List.mem_filterMap.mp hc
        cases s with
        | ret p argument =>
          obtain rfl : argument = some c := hreturned
          exact hreturn p c hs
        | _ => cases hreturned
    | ret hargument => exact ⟨rfl, by simp [Node.values, hargument]⟩
    | expression hinner | exportDefault hinner => exact ⟨trivial, by simp [Node.values, hinner]⟩
  · rintro ⟨hform, hvalues⟩
    have hagree : Agree (lower .nested n) (lowerAll .nested n.values) := agree_lower_values hform
    refine lower_isOk_iff.mp (hagree.isOk_iff.mpr ?_)
    exact lowerAll_isOk_iff.mpr fun c hc => lower_of_accepted .nested (hvalues c hc)

lemma acceptedProgram_iff_values {p : Program} :
    AcceptedProgram p ↔ p.InForm ∧ ∀ c ∈ p.values, Accepted c := by
  constructor
  · intro h
    refine ⟨⟨⟨h.kinds, h.singleDefault, h.exportsDeclare⟩, ?_, ?_⟩, ?_⟩
    · exact ⟨fun d hd => (h.bindable d hd).plainName, fun d hd => (h.bindable d hd).hasValue,
        h.distinct⟩
    · exact ⟨fun d hd => (h.exportsBindable d hd).plainName,
        fun d hd => (h.exportsBindable d hd).hasValue, h.exportsDistinct⟩
    · intro c hc
      rcases List.mem_append.mp hc with hc | hc
      · obtain ⟨d, hd, hinit⟩ := List.mem_filterMap.mp hc
        exact (h.bindable d hd).accepted c hinit
      rcases List.mem_append.mp hc with hc | hc
      · obtain ⟨s, hs, hdefault⟩ := List.mem_filterMap.mp hc
        cases s with
        | exportDefault pos inner =>
          obtain rfl : inner = c := Option.some.inj hdefault
          exact h.accepted pos inner hs
        | _ => cases hdefault
      · obtain ⟨d, hd, hinit⟩ := List.mem_filterMap.mp hc
        exact (h.exportsBindable d hd).accepted c hinit
  · rintro ⟨hform, hvalues⟩
    have hagree : Agree (compile .nested p) (lowerAll .nested p.values) :=
      agree_compile_values hform
    refine compile_isOk_iff.mp (hagree.isOk_iff.mpr ?_)
    exact lowerAll_isOk_iff.mpr fun c hc => lower_of_accepted .nested (hvalues c hc)

end Formula

end SheetFormula
