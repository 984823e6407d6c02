import SheetFormula.Formula.Output
import SheetFormula.Proofs.Formula.Body

/-!
# Which programs compile

The subset of trees that have a formula, and the subset of modules that compile, said without
reference to the lowering: by the kinds of nodes, the number and place of returns and exports, and
the names that are bound. Whether a tree is in the subset does not depend on the member mode.
-/

namespace SheetFormula

/-- What a function body looks like, the values in it aside. -/
structure BodyShape (body : List Node) : Prop where
  kinds : ∀ n ∈ body, n.isDeclaration ∨ n.isReturn ∨ n.isEmptyStatement
  singleReturn : body.countP Node.isReturn = 1
  returnsLast : ∀ before r after, body = before ++ r :: after → r.isReturn →
    ∀ n ∈ after, ¬ n.isDeclaration
  returnsValue : ∀ pos argument, .ret pos argument ∈ body → argument.isSome
  plainNames : ∀ d ∈ declaratorsIn body, d.id.name?.isSome
  haveValues : ∀ d ∈ declaratorsIn body, d.init.isSome
  distinct : ((declaratorsIn body).filterMap (·.id.name?)).Nodup

/-- The trees that have a formula. -/
inductive Accepted : Node → Prop
  | identifier (pos : Position) (name : Text) : Accepted (.identifier pos name)
  | literal (pos : Position) (raw : Text) : Accepted (.literal pos raw)
  | binary {pos : Position} {left right : Node} {operator : Text}
      (known : operator ∈ (["+", "-", "*", "/", ">", "<", ">=", "<="] : List Text))
      (hleft : Accepted left) (hright : Accepted right) :
      Accepted (.binary pos left operator right)
  | conditional {pos : Position} {test consequent alternate : Node} (htest : Accepted test)
      (hconsequent : Accepted consequent) (halternate : Accepted alternate) :
      Accepted (.conditional pos test consequent alternate)
  | call {pos : Position} {callee : Node} {arguments : List Node} (hcallee : Accepted callee)
      (harguments : ∀ n ∈ arguments, Accepted n) : Accepted (.call pos callee arguments)
  | member {pos : Position} {object property : Node} {computed : Bool}
      (hobject : Accepted object) (hproperty : Accepted property) :
      Accepted (.member pos object property computed)
  | sequence {pos : Position} {expressions : List Node}
      (hexpressions : ∀ n ∈ expressions, Accepted n) : Accepted (.sequence pos expressions)
  | arrow {pos : Position} {params : List Node} {body : Node}
      (plain : ∀ p ∈ params, p.name?.isSome) (hbody : Accepted body) :
      Accepted (.arrow pos params body)
  | block {pos : Position} {body : List Node} (shape : BodyShape body)
      (hvalues : ∀ d ∈ declaratorsIn body, ∀ n ∈ d.init, Accepted n)
      (hreturn : ∀ p n, .ret p (some n) ∈ body → Accepted n) : Accepted (.block pos body)
  | ret {pos : Position} {argument : Node} (hargument : Accepted argument) :
      Accepted (.ret pos (some argument))
  | expression {pos : Position} {inner : Node} (hinner : Accepted inner) :
      Accepted (.expression pos inner)
  | exportDefault {pos : Position} {inner : Node} (hinner : Accepted inner) :
      Accepted (.exportDefault pos inner)

/-- The names that a named export declares. -/
def Node.exported : Node → List (Declarator Node)
  | .exportNamed _ (some (.declaration _ _ ds)) => ds
  | _ => []

/-- The names that the named exports of a module declare, in order. -/
def exportedIn (body : List Node) : List (Declarator Node) := body.flatMap Node.exported

/-- A declared name that can be bound: a plain identifier with a value that has a formula. -/
structure Bindable (d : Declarator Node) : Prop where
  plainName : d.id.name?.isSome
  hasValue : d.init.isSome
  accepted : ∀ n ∈ d.init, Accepted n

/-- The modules that compile. -/
structure AcceptedProgram (p : Program) : Prop where
  kinds : ∀ n ∈ p.body,
    n.isDeclaration ∨ n.isExportDefault ∨ n.isExportNamed ∨ n.isEmptyStatement
  singleDefault : p.body.countP Node.isExportDefault = 1
  accepted : ∀ pos inner, .exportDefault pos inner ∈ p.body → Accepted inner
  bindable : ∀ d ∈ declaratorsIn p.body, Bindable d
  distinct : ((declaratorsIn p.body).filterMap (·.id.name?)).Nodup
  exportsDeclare : ∀ pos inner, .exportNamed pos inner ∈ p.body →
    ∃ q keyword d ds, inner = some (.declaration q keyword (d :: ds))
  exportsBindable : ∀ d ∈ exportedIn p.body, Bindable d
  exportsDistinct : ((exportedIn p.body).filterMap (·.id.name?)).Nodup

namespace Formula

/-! ### Order of statements -/

/-- The order of a function body, statement by statement and as a whole. -/
lemma orderly_iff {returned : Bool} {body : List Node} :
    Orderly returned body ↔
      (∀ n ∈ body, n.isDeclaration ∨ n.isReturn ∨ n.isEmptyStatement) ∧
      (returned = true → ∀ n ∈ body, ¬ n.isDeclaration) ∧
      ∀ before r after, body = before ++ r :: after → r.isReturn → ∀ n ∈ after,
        ¬ n.isDeclaration := by
  induction body generalizing returned with
  | nil => simp [Orderly]
  | cons first rest ih =>
    have hallowed : Allowed returned first ↔
        (first.isDeclaration ∨ first.isReturn ∨ first.isEmptyStatement) ∧
        (returned = true → ¬ first.isDeclaration) := by
      cases first <;> simp [Allowed, Node.isDeclaration, Node.isReturn, Node.isEmptyStatement]
    rw [Orderly, ih, hallowed]
    constructor
    · rintro ⟨⟨hkind, hfirst⟩, hkinds, hrest, hlast⟩
      refine ⟨List.forall_mem_cons.mpr ⟨hkind, hkinds⟩, ?_, ?_⟩
      · intro hr
        exact List.forall_mem_cons.mpr ⟨hfirst hr, hrest (by simp [hr])⟩
      · intro before r after hbody hr
        cases before with
        | nil =>
          obtain ⟨rfl, rfl⟩ := List.cons.inj hbody
          exact hrest (by simp [hr])
        | cons b before =>
          obtain ⟨-, htail⟩ := List.cons.inj hbody
          exact hlast before r after htail hr
    · rintro ⟨hkinds, hnone, hlast⟩
      obtain ⟨hkind, hkinds⟩ := List.forall_mem_cons.mp hkinds
      refine ⟨⟨hkind, fun hr => hnone hr first List.mem_cons_self⟩, hkinds, ?_, ?_⟩
      · intro hr n hn
        rcases Bool.or_eq_true_iff.mp hr with hr | hr
        · exact hnone hr n (List.mem_cons_of_mem first hn)
        · exact hlast [] first rest rfl hr n hn
      · intro before r after htail
        exact hlast (first :: before) r after (by rw [htail]; rfl)

/-- The order of a module, statement by statement and as a whole. -/
lemma orderlyOnTop_iff {exported : Bool} {body : List Node} :
    OrderlyOnTop exported body ↔
      (∀ n ∈ body,
        n.isDeclaration ∨ n.isExportDefault ∨ n.isExportNamed ∨ n.isEmptyStatement) ∧
      body.countP Node.isExportDefault + exported.toNat ≤ 1 := by
  induction body generalizing exported with
  | nil => simp [OrderlyOnTop, Bool.toNat_le]
  | cons first rest ih =>
    have hallowed : AllowedOnTop exported first ↔
        (first.isDeclaration ∨ first.isExportDefault ∨ first.isExportNamed ∨
          first.isEmptyStatement) ∧ (first.isExportDefault = true → exported = false) := by
      cases first <;> simp [AllowedOnTop, Node.isDeclaration, Node.isExportDefault,
        Node.isExportNamed, Node.isEmptyStatement]
    have hcount : (first.isExportDefault = true → exported = false) ∧
          rest.countP Node.isExportDefault + (exported || first.isExportDefault).toNat ≤ 1 ↔
        rest.countP Node.isExportDefault + (if first.isExportDefault = true then 1 else 0) +
          exported.toNat ≤ 1 := by
      cases first.isExportDefault <;> cases exported <;> simp
    rw [OrderlyOnTop, ih, hallowed, List.forall_mem_cons, List.countP_cons, and_and_and_comm, hcount]

/-! ### Function bodies -/

lemma length_returnsIn (mode : MemberMode) (body : List Node) :
    (returnsIn mode body).length = body.countP Node.isReturn := by
  induction body with
  | nil => rfl
  | cons n rest ih =>
    have hn : (returnOf mode n).length = if n.isReturn then 1 else 0 := by
      cases n <;> simp [returnOf, Node.isReturn]
    rw [List.countP_cons, ← ih, ← hn]
    simp [returnsIn, Nat.add_comm]

lemma mem_returnsIn {mode : MemberMode} {body : List Node} {p : Position}
    {value : Except Diagnostic Text} :
    (p, value) ∈ returnsIn mode body ↔
      ∃ argument, .ret p argument ∈ body ∧ value = returned mode p argument := by
  rw [returnsIn, List.mem_flatMap]
  constructor
  · rintro ⟨n, hn, hr⟩
    cases n with
    | ret pos argument =>
      obtain ⟨rfl, rfl⟩ : p = pos ∧ value = returned mode pos argument := by
        simpa [returnOf] using hr
      exact ⟨argument, hn, rfl⟩
    | _ => simp [returnOf] at hr
  · rintro ⟨argument, hn, rfl⟩
    exact ⟨_, hn, by simp [returnOf]⟩

lemma returned_isOk_iff {mode : MemberMode} {pos : Position} {argument : Option Node} :
    (∃ t, returned mode pos argument = .ok t) ↔
      argument.isSome ∧ ∀ n ∈ argument, ∃ x, lower mode n = .ok x := by
  cases argument <;> simp [returned]

lemma binding_isOk_iff {mode : MemberMode} {d : Declarator Node} :
    (∃ b, binding mode d = .ok b) ↔
      d.id.name?.isSome ∧ d.init.isSome ∧ ∀ n ∈ d.init, ∃ x, lower mode n = .ok x := by
  constructor
  · rintro ⟨b, hb⟩
    obtain ⟨hname, init, x, hinit, hx, -⟩ := binding_eq_ok.mp hb
    refine ⟨by simp [hname], by simp [hinit], ?_⟩
    intro n hn
    obtain rfl : init = n := by simpa [hinit] using hn
    exact ⟨x, hx⟩
  · rintro ⟨hname, hinit, hx⟩
    obtain ⟨name, hname⟩ := Option.isSome_iff_exists.mp hname
    obtain ⟨init, hinit⟩ := Option.isSome_iff_exists.mp hinit
    obtain ⟨x, hx⟩ := hx init hinit
    exact ⟨⟨name, x.formula⟩, binding_eq_ok.mpr ⟨hname, init, x, hinit, hx, rfl⟩⟩

/-- A function body has a formula if it has the right shape and the values in it have formulas. -/
lemma block_isOk_iff {mode : MemberMode} {pos : Position} {body : List Node} :
    (∃ t, block pos (statements mode body) = .ok t) ↔ BodyShape body ∧
      (∀ d ∈ declaratorsIn body, ∀ n ∈ d.init, ∃ x, lower mode n = .ok x) ∧
      ∀ p n, .ret p (some n) ∈ body → ∃ x, lower mode n = .ok x := by
  constructor
  · rintro ⟨t, ht⟩
    obtain ⟨horder, bs, p, value, result, hbs, hnew, hreturns, hvalue, -⟩ := block_eq_ok.mp ht
    obtain ⟨hkinds, -, hlast⟩ := orderly_iff.mp horder
    have hbind := bindings_isOk_iff.mp ⟨bs, hbs⟩
    have hreturn : ∀ q argument, .ret q argument ∈ body →
        ∃ t, returned mode q argument = .ok t := by
      intro q argument hmem
      have hr : (q, returned mode q argument) ∈ returnsIn mode body :=
        mem_returnsIn.mpr ⟨argument, hmem, rfl⟩
      rw [hreturns, List.mem_singleton, Prod.mk.injEq] at hr
      exact ⟨result, hr.2.trans hvalue⟩
    refine ⟨⟨hkinds, ?_, hlast, ?_, ?_, ?_, ?_⟩, ?_, ?_⟩
    · rw [← length_returnsIn mode, hreturns]
      rfl
    · exact fun q argument hmem => (returned_isOk_iff.mp (hreturn q argument hmem)).1
    · exact fun d hd => (binding_isOk_iff.mp (hbind d hd)).1
    · exact fun d hd => (binding_isOk_iff.mp (hbind d hd)).2.1
    · rwa [bound_bindings hbs] at hnew
    · exact fun d hd => (binding_isOk_iff.mp (hbind d hd)).2.2
    · exact fun q n hmem => (returned_isOk_iff.mp (hreturn q (some n) hmem)).2 n rfl
  · rintro ⟨shape, hvalues, hreturn⟩
    have hbind : ∀ d ∈ declaratorsIn body, ∃ b, binding mode d = .ok b := fun d hd =>
      binding_isOk_iff.mpr ⟨shape.plainNames d hd, shape.haveValues d hd, hvalues d hd⟩
    obtain ⟨bs, hbs⟩ := bindings_isOk_iff.mpr hbind
    obtain ⟨⟨p, value⟩, hreturns⟩ : ∃ r, returnsIn mode body = [r] :=
      List.length_eq_one_iff.mp ((length_returnsIn mode body).trans shape.singleReturn)
    obtain ⟨argument, hmem, hvalue⟩ := mem_returnsIn.mp (hreturns ▸ List.mem_singleton_self _)
    obtain ⟨n, rfl⟩ := Option.isSome_iff_exists.mp (shape.returnsValue p argument hmem)
    obtain ⟨result, hresult⟩ : ∃ t, returned mode p (some n) = .ok t := by
      refine returned_isOk_iff.mpr ⟨rfl, ?_⟩
      intro m hm
      obtain rfl := Option.mem_some_iff.mp hm
      exact hreturn p n hmem
    refine ⟨_, block_eq_ok.mpr ⟨?_, bs, p, value, result, hbs, ?_, hreturns, ?_, rfl⟩⟩
    · exact orderly_iff.mpr ⟨shape.kinds, by simp, shape.returnsLast⟩
    · rw [bound_bindings hbs]
      exact shape.distinct
    · exact hvalue.trans hresult

/-! ### Trees -/

lemma declarator_within {body : List Node} {d : Declarator Node} (hd : d ∈ declaratorsIn body) :
    ∃ s ∈ body, (Node.declarator d).Within s := by
  obtain ⟨s, hs, hd⟩ := List.mem_flatMap.mp hd
  cases s with
  | declaration pos keyword ds => exact ⟨_, hs, .child (List.mem_map_of_mem hd)⟩
  | _ => cases hd

lemma init_within {body : List Node} {d : Declarator Node} {n : Node}
    (hd : d ∈ declaratorsIn body) (hn : n ∈ d.init) : ∃ s ∈ body, n.Within s := by
  obtain ⟨s, hs, hwithin⟩ := declarator_within hd
  have hvalue : n ∈ (Node.declarator d).children :=
    List.mem_cons_of_mem d.id (Option.mem_toList.mpr hn)
  exact ⟨s, hs, (Node.Within.child hvalue).trans hwithin⟩

/-- A tree that has a formula is accepted. -/
theorem accepted_of_lower {mode : MemberMode} {n : Node} {x : Lowered}
    (h : lower mode n = .ok x) : Accepted n := by
  -- The values in a function body are not children of it, but children of its statements.
  induction n using Node.withinInduction generalizing x with
  | step n ih =>
    have child : ∀ c ∈ n.children, ∀ y, lower mode c = .ok y → Accepted c :=
      fun c hc y => ih c hc c (.root c)
    have all : ∀ ns ⊆ n.children, ∀ ts, lowerAll mode ns = .ok ts → ∀ c ∈ ns, Accepted c := by
      intro ns hns ts hts c hc
      obtain ⟨y, hy⟩ := lowerAll_isOk_iff.mp ⟨ts, hts⟩ c hc
      exact child c (hns hc) y hy
    cases n with
    | identifier pos name => exact .identifier pos name
    | literal pos raw => exact .literal pos raw
    | binary pos left operator right =>
      by_cases known : operator ∈ operators
      · simp only [lower, List.contains_iff_mem, known, if_true, Result.bind_eq_ok] at h
        obtain ⟨l, hl, r, hr, -⟩ := h
        exact .binary known (child left (by simp [Node.children]) l hl)
          (child right (by simp [Node.children]) r hr)
      · simp [lower, known] at h
    | conditional pos test consequent alternate =>
      simp only [lower, Result.bind_eq_ok] at h
      obtain ⟨t, ht, c, hc, a, ha, -⟩ := h
      exact .conditional (child test (by simp [Node.children]) t ht)
        (child consequent (by simp [Node.children]) c hc)
        (child alternate (by simp [Node.children]) a ha)
    | call pos callee arguments =>
      simp only [lower, Result.bind_eq_ok] at h
      obtain ⟨f, hf, ts, hts, -⟩ := h
      exact .call (child callee (by simp [Node.children]) f hf)
        (all arguments (List.subset_cons_self callee arguments) ts hts)
    | member pos object property computed =>
      simp only [lower, Result.bind_eq_ok] at h
      obtain ⟨o, ho, k, hk, -⟩ := h
      exact .member (child object (by simp [Node.children]) o ho)
        (child property (by simp [Node.children]) k hk)
    | sequence pos expressions =>
      simp only [lower, Result.bind_eq_ok] at h
      obtain ⟨ts, hts, -⟩ := h
      exact .sequence (all expressions (List.Subset.refl expressions) ts hts)
    | arrow pos params body =>
      simp only [lower, Result.bind_eq_ok] at h
      obtain ⟨names, hnames, b, hb, -⟩ := h
      exact .arrow (parameters_isOk_iff.mp ⟨names, hnames⟩)
        (child body (by simp [Node.children]) b hb)
    | block pos body =>
      simp only [lower, Result.map_eq_ok] at h
      obtain ⟨t, ht, -⟩ := h
      obtain ⟨shape, hvalues, hreturns⟩ := block_isOk_iff.mp ⟨t, ht⟩
      refine .block shape ?_ ?_
      · intro d hd n hn
        obtain ⟨s, hs, hwithin⟩ := init_within hd hn
        obtain ⟨y, hy⟩ := hvalues d hd n hn
        exact ih s hs n hwithin hy
      · intro p n hmem
        obtain ⟨y, hy⟩ := hreturns p n hmem
        exact ih _ hmem n (.child (by simp [Node.children])) hy
    | ret pos argument =>
      simp only [lower, Result.map_eq_ok] at h
      obtain ⟨t, ht, -⟩ := h
      cases argument with
      | none => simp [returned] at ht
      | some argument =>
        obtain ⟨y, hy⟩ := (returned_isOk_iff.mp ⟨t, ht⟩).2 argument rfl
        exact .ret (child argument (by simp [Node.children]) y hy)
    | expression pos inner =>
      simp only [lower, Result.bind_eq_ok] at h
      obtain ⟨y, hy, -⟩ := h
      exact .expression (child inner (by simp [Node.children]) y hy)
    | exportDefault pos inner =>
      simp only [lower, Result.bind_eq_ok] at h
      obtain ⟨y, hy, -⟩ := h
      exact .exportDefault (child inner (by simp [Node.children]) y hy)
    | _ => simp [lower] at h

/-- An accepted tree has a formula. -/
theorem lower_of_accepted (mode : MemberMode) {n : Node} (h : Accepted n) :
    ∃ x, lower mode n = .ok x := by
  induction h with
  | identifier pos name => exact ⟨_, rfl⟩
  | literal pos raw => exact ⟨_, rfl⟩
  | @binary _ _ _ operator known _ _ ihl ihr =>
    have hknown : operator ∈ operators := known
    obtain ⟨l, hl⟩ := ihl
    obtain ⟨r, hr⟩ := ihr
    simp [lower, hknown, hl, hr]
  | conditional _ _ _ iht ihc iha =>
    obtain ⟨t, ht⟩ := iht
    obtain ⟨c, hc⟩ := ihc
    obtain ⟨a, ha⟩ := iha
    simp [lower, ht, hc, ha]
  | call _ _ ihf ihs =>
    obtain ⟨f, hf⟩ := ihf
    obtain ⟨ts, hts⟩ := lowerAll_isOk_iff.mpr ihs
    simp [lower, hf, hts]
  | member _ _ iho ihk =>
    obtain ⟨o, ho⟩ := iho
    obtain ⟨k, hk⟩ := ihk
    simp [lower, ho, hk]
  | sequence _ ihs =>
    obtain ⟨ts, hts⟩ := lowerAll_isOk_iff.mpr ihs
    simp [lower, hts]
  | arrow plain _ ihb =>
    obtain ⟨names, hnames⟩ := parameters_isOk_iff.mpr plain
    obtain ⟨b, hb⟩ := ihb
    simp [lower, hnames, hb]
  | block shape _ _ ihvalues ihreturn =>
    obtain ⟨t, ht⟩ := block_isOk_iff.mpr ⟨shape, ihvalues, ihreturn⟩
    exact ⟨.single t, by rw [lower, ht]; rfl⟩
  | ret _ ih =>
    obtain ⟨x, hx⟩ := ih
    simp [lower, returned, hx]
  | expression _ ih | exportDefault _ ih =>
    obtain ⟨x, hx⟩ := ih
    simp [lower, hx]

/-- Exactly the accepted trees have a formula, in either member mode. -/
lemma lower_isOk_iff {mode : MemberMode} {n : Node} :
    (∃ x, lower mode n = .ok x) ↔ Accepted n :=
  ⟨fun ⟨_, hx⟩ => accepted_of_lower hx, lower_of_accepted mode⟩

/-! ### Modules -/

lemma binding_isOk_iff_bindable {mode : MemberMode} {d : Declarator Node} :
    (∃ b, binding mode d = .ok b) ↔ Bindable d := by
  simp only [binding_isOk_iff, lower_isOk_iff]
  exact ⟨fun ⟨hname, hvalue, haccepted⟩ => ⟨hname, hvalue, haccepted⟩,
    fun h => ⟨h.plainName, h.hasValue, h.accepted⟩⟩

lemma length_filterMap_defaultOf (mode : MemberMode) (body : List Node) :
    (body.filterMap (defaultOf mode)).length = body.countP Node.isExportDefault := by
  rw [List.length_filterMap_eq_countP]
  congr 1
  funext n
  cases n <;> simp [defaultOf, Node.isExportDefault]

/-- The only default export of a module has a formula if all of them do. -/
lemma findSome_defaultOf_isOk_iff {mode : MemberMode} {body : List Node}
    (single : body.countP Node.isExportDefault = 1) :
    (∃ main, body.findSome? (defaultOf mode) = some (.ok main)) ↔
      ∀ pos inner, .exportDefault pos inner ∈ body → Accepted inner := by
  obtain ⟨value, hvalue⟩ : ∃ value, body.filterMap (defaultOf mode) = [value] :=
    List.length_eq_one_iff.mp ((length_filterMap_defaultOf mode body).trans single)
  have hmem : ∀ pos inner, .exportDefault pos inner ∈ body →
      (lower mode inner).map (·.formula) = value := by
    intro pos inner h
    have : (lower mode inner).map (·.formula) ∈ body.filterMap (defaultOf mode) :=
      List.mem_filterMap.mpr ⟨_, h, rfl⟩
    simpa [hvalue] using this
  rw [← List.head?_filterMap, hvalue]
  constructor
  · rintro ⟨main, hmain⟩ pos inner h
    have hinner := (hmem pos inner h).trans (Option.some.inj hmain)
    obtain ⟨x, hx, -⟩ := Result.map_eq_ok.mp hinner
    exact accepted_of_lower hx
  · intro h
    obtain ⟨n, hn, hdefault⟩ := List.mem_filterMap.mp (hvalue ▸ List.mem_singleton_self value)
    cases n with
    | exportDefault pos inner =>
      obtain ⟨x, hx⟩ := lower_of_accepted mode (h pos inner hn)
      refine ⟨x.formula, ?_⟩
      rw [← hmem pos inner hn, hx]
      rfl
    | _ => cases hdefault

lemma exported_eq_ok {mode : MemberMode} {pos : Position} {inner : Option Node}
    {bs : List (Position × Binding)} :
    exported mode pos inner = .ok bs ↔ ∃ q keyword d ds,
      inner = some (.declaration q keyword (d :: ds)) ∧ bindings mode (d :: ds) = .ok bs := by
  cases inner with
  | none => simp [exported]
  | some n =>
    cases n with
    | declaration q keyword ds =>
      cases ds with
      | nil => simp [exported]
      | cons d ds =>
        rw [exported, ← bindings]
        simp
    | _ => simp [exported]

/-- The named exports of a module have bindings if each declares a name and each name has one. -/
lemma namedIn_eq_ok {mode : MemberMode} {body : List Node} {cs : List (Position × Binding)} :
    (∃ bs : List (List (Position × Binding)),
        (namedIn mode body).map (·.2) = bs.map .ok ∧ bs.flatten = cs) ↔
      (∀ pos inner, .exportNamed pos inner ∈ body →
        ∃ q keyword d ds, inner = some (.declaration q keyword (d :: ds))) ∧
      bindings mode (exportedIn body) = .ok cs := by
  induction body generalizing cs with
  | nil => simp [namedIn, exportedIn, bindings]
  | cons n rest ih =>
    cases n with
    | exportNamed pos inner =>
      have hcons : namedIn mode (.exportNamed pos inner :: rest) =
          (pos, exported mode pos inner) :: namedIn mode rest := rfl
      rw [hcons]
      constructor
      · rintro ⟨_ | ⟨as, bs⟩, hbs, rfl⟩
        · simp at hbs
        · simp only [List.map_cons, List.cons.injEq] at hbs
          obtain ⟨hexported, hrest⟩ := hbs
          obtain ⟨q, keyword, d, ds, rfl, has⟩ := exported_eq_ok.mp hexported
          obtain ⟨hdeclare, hcs⟩ := ih.mp ⟨bs, hrest, rfl⟩
          refine ⟨?_, bindings_append_eq_ok.mpr ⟨as, bs.flatten, has, hcs, rfl⟩⟩
          intro p inner hmem
          rcases List.mem_cons.mp hmem with heq | hmem
          · cases heq
            exact ⟨q, keyword, d, ds, rfl⟩
          · exact hdeclare p inner hmem
      · rintro ⟨hdeclare, hall⟩
        obtain ⟨q, keyword, d, ds, rfl⟩ := hdeclare pos inner List.mem_cons_self
        obtain ⟨as, _, has, hcs, rfl⟩ := bindings_append_eq_ok.mp hall
        obtain ⟨bs, hbs, rfl⟩ :=
          ih.mpr ⟨fun p inner hmem => hdeclare p inner (List.mem_cons_of_mem _ hmem), hcs⟩
        have hexported : exported mode pos (some (.declaration q keyword (d :: ds))) = .ok as :=
          exported_eq_ok.mpr ⟨q, keyword, d, ds, rfl, has⟩
        exact ⟨as :: bs, by simp [hexported, hbs], rfl⟩
    | _ =>
      simp only [List.mem_cons, reduceCtorEq, false_or]
      exact ih

lemma exports_isOk_iff {mode : MemberMode} {scope : List Binding} {body : List Node} :
    (∃ es, exports scope (namedIn mode body) = .ok es) ↔
      (∀ pos inner, .exportNamed pos inner ∈ body →
        ∃ q keyword d ds, inner = some (.declaration q keyword (d :: ds))) ∧
      (∀ d ∈ exportedIn body, Bindable d) ∧ ((exportedIn body).filterMap (·.id.name?)).Nodup := by
  have hbindable : (∃ cs, bindings mode (exportedIn body) = .ok cs) ↔
      ∀ d ∈ exportedIn body, Bindable d := by
    simp only [bindings_isOk_iff, binding_isOk_iff_bindable]
  constructor
  · rintro ⟨es, hes⟩
    obtain ⟨bs, hbs, hdistinct, -⟩ := exports_eq_ok.mp hes
    obtain ⟨hdeclare, hcs⟩ := namedIn_eq_ok.mp ⟨bs, hbs, rfl⟩
    rw [bound_bindings hcs] at hdistinct
    exact ⟨hdeclare, hbindable.mp ⟨_, hcs⟩, hdistinct⟩
  · rintro ⟨hdeclare, hall, hdistinct⟩
    obtain ⟨cs, hcs⟩ := hbindable.mpr hall
    obtain ⟨bs, hbs, rfl⟩ := namedIn_eq_ok.mpr ⟨hdeclare, hcs⟩
    rw [← bound_bindings hcs] at hdistinct
    exact ⟨_, exports_eq_ok.mpr ⟨bs, hbs, hdistinct, rfl⟩⟩

/-- Exactly the accepted modules compile. -/
lemma compile_isOk_iff {mode : MemberMode} {p : Program} :
    (∃ u, compile mode p = .ok u) ↔ AcceptedProgram p := by
  constructor
  · rintro ⟨u, hu⟩
    obtain ⟨horder, bs, value, main, es, hbs, hnew, hdefault, rfl, hes, -⟩ := compile_eq_ok.mp hu
    obtain ⟨hkinds, hcount⟩ := orderlyOnTop_iff.mp horder
    have hsome : 0 < p.body.countP Node.isExportDefault := by
      rw [← length_filterMap_defaultOf mode, List.length_pos_iff_exists_mem]
      rw [← List.head?_filterMap] at hdefault
      exact ⟨_, List.mem_of_head? hdefault⟩
    have hsingle : p.body.countP Node.isExportDefault = 1 := by
      have : (false : Bool).toNat = 0 := rfl
      omega
    obtain ⟨hdeclare, hexported, hdistinct⟩ := exports_isOk_iff.mp ⟨es, hes⟩
    refine ⟨hkinds, hsingle, (findSome_defaultOf_isOk_iff hsingle).mp ⟨main, hdefault⟩, ?_, ?_,
      hdeclare, hexported, hdistinct⟩
    · exact fun d hd => binding_isOk_iff_bindable.mp (bindings_isOk_iff.mp ⟨bs, hbs⟩ d hd)
    · rwa [bound_bindings hbs] at hnew
  · intro h
    obtain ⟨bs, hbs⟩ : ∃ bs, bindings mode (declaratorsIn p.body) = .ok bs :=
      bindings_isOk_iff.mpr fun d hd => binding_isOk_iff_bindable.mpr (h.bindable d hd)
    obtain ⟨main, hmain⟩ := (findSome_defaultOf_isOk_iff h.singleDefault).mpr h.accepted
    obtain ⟨es, hes⟩ := exports_isOk_iff.mpr
      ⟨h.exportsDeclare, h.exportsBindable, h.exportsDistinct⟩
    refine ⟨_, compile_eq_ok.mpr ⟨?_, bs, _, main, es, hbs, ?_, hmain, rfl, hes, rfl⟩⟩
    · exact orderlyOnTop_iff.mpr ⟨h.kinds, by simp [h.singleDefault]⟩
    · rw [bound_bindings hbs]
      exact h.distinct

/-- The module bindings of a compiled module carry the names that it declares. -/
lemma bound_compile {mode : MemberMode} {p : Program} {u : CompiledUnit}
    (h : compile mode p = .ok u) :
    bound u.bindings = (declaratorsIn p.body).filterMap (·.id.name?) := by
  obtain ⟨-, bs, _, _, _, hbs, -, -, -, -, rfl⟩ := compile_eq_ok.mp h
  exact bound_bindings hbs

end Formula

/-- Unpacked output reserves one name; packed output is always there. -/
lemma Output.ofUnit_isOk_iff {shape : OutputMode} {pos : Position} {u : CompiledUnit} :
    (∃ o, Output.ofUnit shape pos u = .ok o) ↔
      (shape = .unpacked → mainName ∉ bound u.bindings) := by
  cases shape with
  | packed => simp [Output.ofUnit]
  | unpacked =>
    by_cases h : mainName ∈ bound u.bindings
    · have hany : u.bindings.any (·.name = mainName) = true := by simpa [bound] using h
      simp [Output.ofUnit, hany, h]
    · have hany : u.bindings.any (·.name = mainName) = false := by simpa [bound] using h
      simp [Output.ofUnit, hany, h]

/-- The accepted subset is exactly what has a formula and exactly what compiles, in either member
mode. Of the accepted modules only those that bind the reserved name have no unpacked output. -/
theorem compiles_iff_accepted (mode : MemberMode) :
    (∀ n : Option Node,
      (∃ t, Formula.ofNode mode n = .ok t) ↔ ∃ m, n = some m ∧ Accepted m) ∧
    (∀ p : Program, (∃ u, Formula.compile mode p = .ok u) ↔ AcceptedProgram p) ∧
    (∀ (shape : OutputMode) (p : Option Program),
      (∃ o, Output.ofProgram shape mode p = .ok o) ↔ ∃ q, p = some q ∧ AcceptedProgram q ∧
        (shape = .unpacked → mainName ∉ (declaratorsIn q.body).filterMap (·.id.name?))) := by
  refine ⟨?_, fun p => Formula.compile_isOk_iff, ?_⟩
  · intro n
    cases n with
    | none => simp [Formula.ofNode]
    | some n =>
      have hn : (∃ x, Formula.lower mode n = .ok x) ↔ Accepted n := Formula.lower_isOk_iff
      simp [Formula.ofNode, ← hn]
  · intro shape p
    cases p with
    | none => simp [Output.ofProgram]
    | some p =>
      simp only [Output.ofProgram, Result.bind_eq_ok, Option.some.injEq, exists_eq_left']
      constructor
      · rintro ⟨o, u, hu, ho⟩
        refine ⟨Formula.compile_isOk_iff.mp ⟨u, hu⟩, ?_⟩
        rw [← Formula.bound_compile hu]
        exact Output.ofUnit_isOk_iff.mp ⟨o, ho⟩
      · rintro ⟨haccepted, hfree⟩
        obtain ⟨u, hu⟩ := Formula.compile_isOk_iff.mpr haccepted
        rw [← Formula.bound_compile hu] at hfree
        obtain ⟨o, ho⟩ := Output.ofUnit_isOk_iff.mpr hfree
        exact ⟨o, u, hu, ho⟩

end SheetFormula
