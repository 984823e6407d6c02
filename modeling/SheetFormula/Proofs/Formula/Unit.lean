import Mathlib.Data.List.Forall2
import SheetFormula.Proofs.Formula.Acceptance

/-!
# What a unit is made of

A module is three lists: the names that it declares, what it exports by default, and the names that
it exports. Its unit is fixed by them, name by name, and does not depend on how the statements of
the module group the names or on how they follow each other. A function body is fixed in the same
way by the names that it declares and by what it returns.
-/

namespace SheetFormula

namespace Node

/-- What a node exports by default. -/
def default? : Node → Option Node
  | exportDefault _ inner => some inner
  | _ => none

end Node

/-- Everything that the statements of a module export by default, in order. -/
def defaultsIn (body : List Node) : List Node := body.filterMap Node.default?

/-- What a module looks like, the values in it and the names aside. -/
structure ModuleShape (body : List Node) : Prop where
  kinds : ∀ n ∈ body, n.isDeclaration ∨ n.isExportDefault ∨ n.isExportNamed ∨ n.isEmptyStatement
  singleDefault : body.countP Node.isExportDefault = 1
  exportsDeclare : ∀ pos inner, .exportNamed pos inner ∈ body →
    ∃ q keyword d ds, inner = some (.declaration q keyword (d :: ds))

/-- `Returning body ds value`: declarations of the names `ds` and empty statements, then a return of
`value`, then empty statements only. -/
def Returning (body : List Node) (ds : List (Declarator Node)) (value : Option Node) : Prop :=
  ∃ before pos after, body = before ++ .ret pos value :: after ∧
    (∀ n ∈ before, n.isDeclaration ∨ n.isEmptyStatement) ∧ (∀ n ∈ after, n.isEmptyStatement) ∧
    declaratorsIn before = ds

namespace Formula

variable {mode : MemberMode}

lemma ofNode_eq_ok {n : Node} {t : Text} :
    ofNode mode (some n) = .ok t ↔ ∃ x, lower mode n = .ok x ∧ x.formula = t :=
  Result.map_eq_ok

/-! ### Names and their formulas -/

/-- A declared name is bound to the formula of its value. -/
def Binds (mode : MemberMode) (d : Declarator Node) (b : Binding) : Prop :=
  d.id.name? = some b.name ∧ ∃ init, d.init = some init ∧ ofNode mode (some init) = .ok b.formula

lemma binding_eq_ok_iff {d : Declarator Node} {b : Binding} :
    binding mode d = .ok b ↔ Binds mode d b := by
  simp only [binding_eq_ok, Binds, ofNode_eq_ok]
  constructor
  · rintro ⟨hname, init, x, hinit, hx, hformula⟩
    exact ⟨hname, init, hinit, x, hx, hformula⟩
  · rintro ⟨hname, init, hinit, x, hx, hformula⟩
    exact ⟨hname, init, x, hinit, hx, hformula⟩

/-- Declarations have bindings exactly if their names have, one by one and in order. -/
lemma exists_bindings_iff {ds : List (Declarator Node)} {bs : List Binding} :
    (∃ placed, bindings mode ds = .ok placed ∧ placed.map (·.2) = bs) ↔
      List.Forall₂ (Binds mode) ds bs := by
  induction ds generalizing bs with
  | nil => simp [bindings, eq_comm]
  | cons d rest ih =>
    rw [List.forall₂_cons_left_iff]
    constructor
    · rintro ⟨placed, h, rfl⟩
      obtain ⟨b, later, hb, hlater, rfl⟩ := bindings_cons_eq_ok.mp h
      exact ⟨b, _, binding_eq_ok_iff.mp hb, ih.mp ⟨later, hlater, rfl⟩, rfl⟩
    · rintro ⟨b, cs, hb, hcs, rfl⟩
      obtain ⟨later, hlater, rfl⟩ := ih.mpr hcs
      have hall := bindings_cons_eq_ok.mpr ⟨b, later, binding_eq_ok_iff.mpr hb, hlater, rfl⟩
      exact ⟨_, hall, rfl⟩

/-! ### Modules -/

/-- What the first default export of a module comes to. -/
lemma findSome_defaultOf (body : List Node) :
    body.findSome? (defaultOf mode) =
      (defaultsIn body).head?.map fun n => ofNode mode (some n) := by
  have hof : ∀ n : Node, defaultOf mode n = n.default?.map fun m => ofNode mode (some m) := by
    intro n
    cases n <;> rfl
  induction body with
  | nil => rfl
  | cons n rest ih =>
    rw [List.findSome?_cons, hof, ih]
    cases h : n.default? with
    | none => simp [defaultsIn, h]
    | some m => simp [defaultsIn, h]

lemma length_defaultsIn (body : List Node) :
    (defaultsIn body).length = body.countP Node.isExportDefault := by
  rw [defaultsIn, List.length_filterMap_eq_countP]
  congr 1
  funext n
  cases n <;> rfl

/-- A binding with a scope around its formula. -/
def under (scope : List Binding) (b : Binding) : Binding := ⟨b.name, letIn scope b.formula⟩

lemma exports_namedIn_eq_ok {scope es : List Binding} {body : List Node} :
    exports scope (namedIn mode body) = .ok es ↔
      (∀ pos inner, .exportNamed pos inner ∈ body →
        ∃ q keyword d ds, inner = some (.declaration q keyword (d :: ds))) ∧
      ∃ bs, List.Forall₂ (Binds mode) (exportedIn body) bs ∧ (bound bs).Nodup ∧
        es = bs.map (under scope) := by
  have hunder : ∀ placed : List (Position × Binding),
      (placed.map (wrapped scope)).map (·.2) = (placed.map (·.2)).map (under scope) := by
    intro placed
    simp [wrapped, under, Function.comp_def]
  rw [exports_eq_ok]
  constructor
  · rintro ⟨found, hfound, hdistinct, rfl⟩
    obtain ⟨hdeclare, hplaced⟩ := namedIn_eq_ok.mp ⟨found, hfound, rfl⟩
    exact ⟨hdeclare, _, exists_bindings_iff.mp ⟨_, hplaced, rfl⟩, hdistinct, hunder _⟩
  · rintro ⟨hdeclare, bs, hbs, hdistinct, rfl⟩
    obtain ⟨placed, hplaced, rfl⟩ := exists_bindings_iff.mpr hbs
    obtain ⟨found, hfound, rfl⟩ := namedIn_eq_ok.mpr ⟨hdeclare, hplaced⟩
    exact ⟨found, hfound, hdistinct, (hunder _).symm⟩

/-- The unit of a module that declares the names `ds`, exports `main` by default, and exports the
names `es`. -/
structure IsUnitOf (mode : MemberMode) (ds : List (Declarator Node)) (main : Node)
    (es : List (Declarator Node)) (u : CompiledUnit) : Prop where
  bindings : List.Forall₂ (Binds mode) ds u.bindings
  distinct : (bound u.bindings).Nodup
  main : ofNode mode (some main) = .ok u.main
  exports : ∃ bs, List.Forall₂ (Binds mode) es bs ∧ (bound bs).Nodup ∧
    u.exports = bs.map (under u.bindings)

/-- A module compiles to the unit that its names and its default export make up. -/
theorem compile_eq_ok_iff {p : Program} {u : CompiledUnit} :
    compile mode p = .ok u ↔ ModuleShape p.body ∧ ∃ main, defaultsIn p.body = [main] ∧
      IsUnitOf mode (declaratorsIn p.body) main (exportedIn p.body) u := by
  rw [compile_eq_ok, orderlyOnTop_iff, findSome_defaultOf]
  constructor
  · rintro ⟨⟨hkinds, hcount⟩, placed, _, main, es, hplaced, hdistinct, hdefault, rfl, hes, rfl⟩
    obtain ⟨n, hhead, hn⟩ := Option.map_eq_some_iff.mp hdefault
    obtain ⟨hdeclare, hexports⟩ := exports_namedIn_eq_ok.mp hes
    have hsingle : defaultsIn p.body = [n] := by
      obtain ⟨rest, hrest⟩ := List.head?_eq_some_iff.mp hhead
      have hlength := length_defaultsIn p.body
      rw [hrest, List.length_cons] at hlength
      have hnone : rest.length = 0 := by
        simp only [Bool.toNat_false] at hcount
        omega
      rw [hrest, List.length_eq_zero_iff.mp hnone]
    have hshape : ModuleShape p.body :=
      ⟨hkinds, by rw [← length_defaultsIn, hsingle]; rfl, hdeclare⟩
    exact ⟨hshape, n, hsingle, exists_bindings_iff.mp ⟨_, hplaced, rfl⟩, hdistinct, hn, hexports⟩
  · rintro ⟨hshape, n, hsingle, hbindings, hdistinct, hmain, hexports⟩
    obtain ⟨placed, hplaced, hbound⟩ := exists_bindings_iff.mpr hbindings
    have hes := exports_namedIn_eq_ok.mpr ⟨hshape.exportsDeclare, hexports⟩
    rw [← hbound] at hdistinct hes
    refine ⟨⟨hshape.kinds, by simp [hshape.singleDefault]⟩, placed, _, _, _, hplaced, hdistinct,
      by rw [hsingle]; rfl, hmain, hes, ?_⟩
    rw [hbound]

/-! ### Function bodies -/

lemma empty_contributes_nothing (mode : MemberMode) {n : Node} (h : n.isEmptyStatement) :
    n.declarators = [] ∧ returnOf mode n = [] ∧ ∀ returned, Allowed returned n := by
  cases n with
  | other pos kind => exact ⟨rfl, rfl, fun _ => h⟩
  | _ => cases h

lemma trailing_empties (mode : MemberMode) {after : List Node} (h : ∀ n ∈ after, n.isEmptyStatement)
    (returned : Bool) :
    Orderly returned after ∧ declaratorsIn after = [] ∧ returnsIn mode after = [] := by
  induction after generalizing returned with
  | nil => exact ⟨trivial, rfl, rfl⟩
  | cons n rest ih =>
    obtain ⟨hn, hrest⟩ := List.forall_mem_cons.mp h
    obtain ⟨hdeclares, hreturns, hallowed⟩ := empty_contributes_nothing mode hn
    obtain ⟨horder, hdeclared, hreturned⟩ := ih hrest (returned || n.isReturn)
    refine ⟨⟨hallowed returned, horder⟩, ?_, ?_⟩
    · rw [declaratorsIn_cons, hdeclares, hdeclared, List.nil_append]
    · simpa [returnsIn, hreturns] using hreturned

/-- What comes before the return of a body neither ends it nor returns from it. -/
lemma leading_declarations (mode : MemberMode) {before rest : List Node}
    (h : ∀ n ∈ before, n.isDeclaration ∨ n.isEmptyStatement) (hrest : Orderly false rest) :
    Orderly false (before ++ rest) ∧ returnsIn mode (before ++ rest) = returnsIn mode rest := by
  induction before with
  | nil => exact ⟨hrest, rfl⟩
  | cons n later ih =>
    obtain ⟨hn, hlater⟩ := List.forall_mem_cons.mp h
    obtain ⟨horder, hreturns⟩ := ih hlater
    have hfirst : Allowed false n ∧ n.isReturn = false ∧ returnOf mode n = [] := by
      cases n with
      | declaration pos keyword ds => exact ⟨rfl, rfl, rfl⟩
      | other pos kind =>
        have hempty : (Node.other pos kind).isEmptyStatement = true := by
          simpa [Node.isDeclaration] using hn
        exact ⟨hempty, rfl, rfl⟩
      | _ => simp [Node.isDeclaration, Node.isEmptyStatement] at hn
    obtain ⟨hallowed, hreturn, hnone⟩ := hfirst
    refine ⟨⟨hallowed, ?_⟩, ?_⟩
    · rw [hreturn]
      exact horder
    · simpa [returnsIn, hnone] using hreturns

lemma returned_eq_ok {pos : Position} {value : Option Node} {t : Text} :
    returned mode pos value = .ok t ↔ ∃ n, value = some n ∧ ofNode mode (some n) = .ok t := by
  cases value with
  | none => simp [returned]
  | some n => simp [returned, ofNode_eq_ok]

/-- A function body has the formula that its names and its returned value make up. -/
theorem block_eq_ok_iff {pos : Position} {body : List Node} {ds : List (Declarator Node)}
    {value : Option Node} {t : Text} (h : Returning body ds value) :
    ofNode mode (some (.block pos body)) = .ok t ↔
      ∃ bs n result, List.Forall₂ (Binds mode) ds bs ∧ (bound bs).Nodup ∧ value = some n ∧
        ofNode mode (some n) = .ok result ∧ t = letIn bs result := by
  obtain ⟨before, p, after, rfl, hbefore, hafter, rfl⟩ := h
  obtain ⟨hlater, hnone, hquiet⟩ := trailing_empties mode hafter true
  have hend : Orderly false (.ret p value :: after) := ⟨trivial, hlater⟩
  obtain ⟨horder, hreturns⟩ := leading_declarations mode hbefore hend
  have hdeclared : declaratorsIn (before ++ .ret p value :: after) = declaratorsIn before :=
    calc
      _ = declaratorsIn before ++ declaratorsIn after := by simp [declaratorsIn, Node.declarators]
      _ = declaratorsIn before := by rw [hnone, List.append_nil]
  have hreturned : returnsIn mode (before ++ .ret p value :: after) =
      [(p, returned mode p value)] := by
    rw [hreturns]
    simpa [returnsIn, returnOf] using hquiet
  have hblock : ofNode mode (some (.block pos (before ++ .ret p value :: after))) = .ok t ↔
      block pos (statements mode (before ++ .ret p value :: after)) = .ok t := by
    simp [ofNode_eq_ok, lower, Lowered.single]
  rw [hblock, block_eq_ok, hdeclared, hreturned]
  constructor
  · rintro ⟨-, placed, _, _, result, hplaced, hdistinct, hsingle, hvalue, rfl⟩
    obtain ⟨rfl, rfl⟩ := Prod.mk.inj (List.singleton_inj.mp hsingle)
    obtain ⟨n, hn, hresult⟩ := returned_eq_ok.mp hvalue
    exact ⟨_, n, result, exists_bindings_iff.mp ⟨placed, hplaced, rfl⟩, hdistinct, hn, hresult, rfl⟩
  · rintro ⟨bs, n, result, hbs, hdistinct, hn, hresult, rfl⟩
    obtain ⟨placed, hplaced, rfl⟩ := exists_bindings_iff.mpr hbs
    have hvalue : returned mode p value = .ok result := returned_eq_ok.mpr ⟨n, hn, hresult⟩
    exact ⟨horder, placed, p, _, result, hplaced, hdistinct, rfl, hvalue, rfl⟩

end Formula

/-- Neither the grouping of names into statements nor the way in which the statements follow each
other matters: modules with the same names, the same default export and the same exported names
have the same unit or none, and function bodies with the same names and the same returned value
have the same formula or none. -/
theorem grouping_irrelevant (mode : MemberMode) :
    (∀ p q : Program, ModuleShape p.body → ModuleShape q.body →
      declaratorsIn p.body = declaratorsIn q.body → defaultsIn p.body = defaultsIn q.body →
      exportedIn p.body = exportedIn q.body →
      ∀ u, Formula.compile mode p = .ok u ↔ Formula.compile mode q = .ok u) ∧
    ∀ (pos pos' : Position) (body body' : List Node) (ds : List (Declarator Node))
      (value : Option Node), Returning body ds value → Returning body' ds value →
      ∀ t, Formula.ofNode mode (some (.block pos body)) = .ok t ↔
        Formula.ofNode mode (some (.block pos' body')) = .ok t := by
  constructor
  · intro p q hp hq hdeclared hdefaults hexported u
    rw [Formula.compile_eq_ok_iff, Formula.compile_eq_ok_iff, hdeclared, hdefaults, hexported]
    simp only [hp, hq, true_and]
  · intro pos pos' body body' ds value hbody hbody' t
    rw [Formula.block_eq_ok_iff hbody, Formula.block_eq_ok_iff hbody']

/-- Two names declared at once or one by one, before or after what is exported, make one unit. -/
theorem regrouped_names_compile_alike :
    let one : Node := .literal {} "1"
    let a : Declarator Node := ⟨{}, .identifier {} "a", some one⟩
    let b : Declarator Node := ⟨{}, .identifier {} "b", some (.identifier {} "a")⟩
    let x : Declarator Node := ⟨{}, .identifier {} "X", some (.identifier {} "b")⟩
    let entry : Node := .exportDefault {} (.identifier {} "b")
    let named : Node := .exportNamed {} (some (.declaration {} "const" [x]))
    let unit : CompiledUnit := ⟨[⟨"a", "1"⟩, ⟨"b", "a"⟩], "b", [⟨"X", "LET(a, 1, b, a, b)"⟩]⟩
    Formula.compile .nested ⟨{}, [.declaration {} "const" [a, b], entry, named]⟩ = .ok unit ∧
    Formula.compile .nested ⟨{}, [named, .declaration {} "let" [a], .other {} "EmptyStatement",
      entry, .declaration {} "const" [b]]⟩ = .ok unit ∧
    Formula.ofNode .nested (some (.block {} [.declaration {} "let" [a], .declaration {} "let" [b],
      .ret {} (some one), .other {} "EmptyStatement"])) = .ok "LET(a, 1, b, a, 1)" := by
  intro one a b x entry named unit
  have hcompile : Formula.compile .nested ⟨{}, [.declaration {} "const" [a, b], entry, named]⟩ =
      .ok unit := by rfl
  refine ⟨hcompile, ?_, ?_⟩
  · refine ((grouping_irrelevant .nested).1 _ _ ?_ ?_ rfl rfl rfl unit).mp hcompile
    · exact ⟨by decide, by decide, by simp [entry, named]⟩
    · exact ⟨by decide, by decide, by simp [entry, named]⟩
  · refine ((grouping_irrelevant .nested).2 {} {}
      [.declaration {} "const" [a, b], .ret {} (some one)] _ [a, b] (some one) ?_ ?_ _).mp (by rfl)
    · exact ⟨[.declaration {} "const" [a, b]], {}, [], rfl, by decide, by decide, rfl⟩
    · exact ⟨[.declaration {} "let" [a], .declaration {} "let" [b]], {},
        [.other {} "EmptyStatement"], rfl, by decide, by decide, rfl⟩

end SheetFormula
