import SheetFormula.Proofs.Fault
import SheetFormula.Proofs.Formula.Values

/-!
# Nodes in context

A context is a tree with a hole, kept as the frames around the hole, the outermost first. Where the
hole is a value of the tree, and the tree with a plain name in the hole has a formula, the tree goes
as what is put into the hole: it has a formula if that has one, and fails with the same diagnostic
otherwise. In a module that compiles with a name in the hole, the hole is a value or a name that is
declared.
-/

namespace SheetFormula

namespace Node

/-- A node with a hole in the place of one of its children. -/
inductive Frame where
  | programStatement (pos : Position) (before after : List Node)
  | binaryLeft (pos : Position) (operator : Text) (right : Node)
  | binaryRight (pos : Position) (left : Node) (operator : Text)
  | test (pos : Position) (consequent alternate : Node)
  | consequent (pos : Position) (test alternate : Node)
  | alternate (pos : Position) (test consequent : Node)
  | callee (pos : Position) (arguments : List Node)
  | argument (pos : Position) (callee : Node) (before after : List Node)
  | object (pos : Position) (property : Node) (computed : Bool)
  | property (pos : Position) (object : Node) (computed : Bool)
  | component (pos : Position) (before after : List Node)
  | parameter (pos : Position) (before after : List Node) (body : Node)
  | arrowBody (pos : Position) (params : List Node)
  | blockStatement (pos : Position) (before after : List Node)
  | declaredName (pos : Position) (keyword : Text) (before : List (Declarator Node))
      (place : Position) (init : Option Node) (after : List (Declarator Node))
  | declaredValue (pos : Position) (keyword : Text) (before : List (Declarator Node))
      (place : Position) (id : Node) (after : List (Declarator Node))
  | declaratorName (pos : Position) (init : Option Node)
  | declaratorValue (pos : Position) (id : Node)
  | returned (pos : Position)
  | wrapped (pos : Position)
  | assignee (pos : Position) (operator : Text) (right : Node)
  | assigned (pos : Position) (left : Node) (operator : Text)
  | defaultExport (pos : Position)
  | namedExport (pos : Position)

namespace Frame

/-- The node with another one in its hole. -/
def fill : Frame → Node → Node
  | programStatement pos before after, n => .program pos (before ++ n :: after)
  | binaryLeft pos sign r, n => .binary pos n sign r
  | binaryRight pos l sign, n => .binary pos l sign n
  | test pos c a, n => .conditional pos n c a
  | consequent pos t a, n => .conditional pos t n a
  | alternate pos t c, n => .conditional pos t c n
  | callee pos xs, n => .call pos n xs
  | argument pos f before after, n => .call pos f (before ++ n :: after)
  | object pos k computed, n => .member pos n k computed
  | property pos o computed, n => .member pos o n computed
  | component pos before after, n => .sequence pos (before ++ n :: after)
  | parameter pos before after body, n => .arrow pos (before ++ n :: after) body
  | arrowBody pos params, n => .arrow pos params n
  | blockStatement pos before after, n => .block pos (before ++ n :: after)
  | declaredName pos keyword ds place init es, n =>
    .declaration pos keyword (ds ++ ⟨place, n, init⟩ :: es)
  | declaredValue pos keyword ds place id es, n =>
    .declaration pos keyword (ds ++ ⟨place, id, some n⟩ :: es)
  | declaratorName pos init, n => .declarator ⟨pos, n, init⟩
  | declaratorValue pos id, n => .declarator ⟨pos, id, some n⟩
  | returned pos, n => .ret pos (some n)
  | wrapped pos, n => .expression pos n
  | assignee pos sign r, n => .assignment pos n sign r
  | assigned pos l sign, n => .assignment pos l sign n
  | defaultExport pos, n => .exportDefault pos n
  | namedExport pos, n => .exportNamed pos (some n)

/-- Whether the hole is a value of the node by itself. -/
def isValue : Frame → Bool
  | binaryLeft .. | binaryRight .. | test .. | consequent .. | alternate .. | callee ..
  | argument .. | object .. | property .. | component .. | arrowBody .. | returned .. | wrapped ..
  | defaultExport .. => true
  | _ => false

/-- Whether the hole is a name that the node declares. -/
def isName : Frame → Bool
  | parameter .. | declaredName .. | declaratorName .. => true
  | _ => false

lemma name?_fill (f : Frame) (n : Node) : (f.fill n).name? = none := by
  cases f <;> rfl

end Frame

/-- A tree with a hole: the frames around the hole, the outermost first. -/
abbrev Context := List Frame

namespace Context

def fill (c : Context) (n : Node) : Node := c.foldr Frame.fill n

@[simp] lemma fill_nil (n : Node) : fill [] n = n := rfl

@[simp] lemma fill_cons (f : Frame) (c : Context) (n : Node) :
    fill (f :: c) n = f.fill (fill c n) := rfl

/-- Every node around the hole is made of the next one, so that the hole is a value of a value, and
so on. The values of a function body are those that it declares and the one that it returns. -/
inductive Converts : Context → Prop
  | hole : Converts []
  | value {f : Frame} {c : Context} (hf : f.isValue) (hc : Converts c) : Converts (f :: c)
  | declared (pos : Position) (before after : List Node) (q : Position) (keyword : Text)
      (ds : List (Declarator Node)) (place : Position) (id : Node) (es : List (Declarator Node))
      {c : Context} (hc : Converts c) :
      Converts (.blockStatement pos before after :: .declaredValue q keyword ds place id es :: c)
  | returned (pos : Position) (before after : List Node) (q : Position) {c : Context}
      (hc : Converts c) : Converts (.blockStatement pos before after :: .returned q :: c)

/-- Whether the hole is the name of a parameter or of a declared value. -/
def atName (c : Context) : Bool := c.getLast?.any Frame.isName

lemma atName_tail {f : Frame} {c : Context} (h : atName (f :: c) = false) : atName c = false := by
  cases c with
  | nil => rfl
  | cons g rest => simpa [atName] using h

/-- A tree that is a plain name has no frame around its hole. -/
lemma eq_nil_of_name {c : Context} {n : Node} (h : (fill c n).name?.isSome) : c = [] := by
  cases c with
  | nil => rfl
  | cons f rest => simp [Frame.name?_fill] at h

end Context

end Node

/-- A module with a hole in one of its statements. -/
structure Program.Context where
  pos : Position
  before : List Node
  statement : Node.Context
  after : List Node

namespace Program.Context

def fill (p : Program.Context) (n : Node) : Program :=
  ⟨p.pos, p.before ++ p.statement.fill n :: p.after⟩

/-- The hole is in a value of the module: in one that it declares, in its default export, or in one
that it exports by name. -/
inductive Converts : Program.Context → Prop
  | declared (pos : Position) (before after : List Node) (q : Position) (keyword : Text)
      (ds : List (Declarator Node)) (place : Position) (id : Node) (es : List (Declarator Node))
      {c : Node.Context} (hc : c.Converts) :
      Converts ⟨pos, before, .declaredValue q keyword ds place id es :: c, after⟩
  | exportedByDefault (pos : Position) (before after : List Node) (q : Position)
      {c : Node.Context} (hc : c.Converts) : Converts ⟨pos, before, .defaultExport q :: c, after⟩
  | exportedByName (pos : Position) (before after : List Node) (q r : Position) (keyword : Text)
      (ds : List (Declarator Node)) (place : Position) (id : Node) (es : List (Declarator Node))
      {c : Node.Context} (hc : c.Converts) :
      Converts ⟨pos, before, .namedExport q :: .declaredValue r keyword ds place id es :: c, after⟩

end Program.Context

/-! ### Statements without their values -/

/-- A declared name whose value, if it has one, is left blank. -/
def Declarator.blank (d : Declarator Node) : Declarator Node :=
  ⟨d.pos, d.id, d.init.map fun _ => .literal {} []⟩

/-- A declaration whose values are left blank. -/
def Node.blankValues : Node → Node
  | declaration pos keyword ds => declaration pos keyword (ds.map Declarator.blank)
  | n => n

/-- A statement whose values are left blank. -/
def Node.blank : Node → Node
  | ret pos argument => ret pos (argument.map fun _ => .literal {} [])
  | exportDefault pos _ => exportDefault pos (.literal {} [])
  | exportNamed pos inner => exportNamed pos (inner.map Node.blankValues)
  | n => n.blankValues

namespace Node

variable (n : Node)

@[simp] lemma isDeclaration_blank : n.blank.isDeclaration = n.isDeclaration := by cases n <;> rfl

@[simp] lemma isReturn_blank : n.blank.isReturn = n.isReturn := by cases n <;> rfl

@[simp] lemma isEmptyStatement_blank : n.blank.isEmptyStatement = n.isEmptyStatement := by
  cases n <;> rfl

@[simp] lemma isExportDefault_blank : n.blank.isExportDefault = n.isExportDefault := by
  cases n <;> rfl

@[simp] lemma isExportNamed_blank : n.blank.isExportNamed = n.isExportNamed := by cases n <;> rfl

@[simp] lemma declarators_blank : n.blank.declarators = n.declarators.map Declarator.blank := by
  cases n <;> rfl

@[simp] lemma exported_blank : n.blank.exported = n.exported.map Declarator.blank := by
  cases n with
  | exportNamed pos inner =>
    cases inner with
    | none => rfl
    | some m => cases m <;> rfl
  | _ => rfl

@[simp] lemma isSome_returned_blank : n.blank.returned?.isSome = n.returned?.isSome := by
  cases n with
  | ret pos argument => cases argument <;> rfl
  | _ => rfl

end Node

section Blank

variable {body : List Node}

lemma declarable_map_blank {taken : List Text} {ds : List (Declarator Node)} :
    Declarable taken (ds.map Declarator.blank) ↔ Declarable taken ds := by
  have hnames : namesOf (ds.map Declarator.blank) = namesOf ds := List.filterMap_map
  constructor
  · intro h
    refine ⟨List.forall_mem_map.mp h.plainNames, ?_, hnames ▸ h.distinct⟩
    simpa [Declarator.blank] using h.haveValues
  · intro h
    refine ⟨List.forall_mem_map.mpr h.plainNames, ?_, hnames ▸ h.distinct⟩
    simpa [Declarator.blank] using h.haveValues

lemma declaratorsIn_map_blank (body : List Node) :
    declaratorsIn (body.map Node.blank) = (declaratorsIn body).map Declarator.blank := by
  simp [declaratorsIn, List.flatMap_map, List.map_flatMap]

lemma exportedIn_map_blank (body : List Node) :
    exportedIn (body.map Node.blank) = (exportedIn body).map Declarator.blank := by
  simp [exportedIn, List.flatMap_map, List.map_flatMap]

lemma orderly_map_blank {returned : Bool} :
    Formula.Orderly returned (body.map Node.blank) ↔ Formula.Orderly returned body := by
  induction body generalizing returned with
  | nil => rfl
  | cons n rest ih =>
    have hallowed : Formula.Allowed returned n.blank ↔ Formula.Allowed returned n := by
      cases n <;> rfl
    rw [List.map_cons, Formula.Orderly, Formula.Orderly, hallowed, Node.isReturn_blank, ih]

lemma countP_map_blank {p : Node → Bool} (hp : ∀ n, p n.blank = p n) :
    (body.map Node.blank).countP p = body.countP p := by
  rw [List.countP_map]
  congr 1
  funext n
  exact hp n

/-- The form of a function body is its form without the values in it. -/
lemma bodyShape_map_blank : BodyShape (body.map Node.blank) ↔ BodyShape body := by
  rw [bodyShape_iff, bodyShape_iff, orderly_map_blank, countP_map_blank Node.isReturn_blank,
    declaratorsIn_map_blank, declarable_map_blank]
  simp

lemma exportsDeclare_iff :
    (∀ pos inner, .exportNamed pos inner ∈ body →
        ∃ q keyword d ds, inner = some (.declaration q keyword (d :: ds))) ↔
      ∀ n ∈ body, n.isExportNamed → n.exported ≠ [] := by
  constructor
  · intro h n hn hnamed
    cases n with
    | exportNamed pos inner =>
      obtain ⟨q, keyword, d, ds, rfl⟩ := h pos inner hn
      exact List.cons_ne_nil d ds
    | _ => cases hnamed
  · intro h pos inner hmem
    have hexported := h _ hmem rfl
    cases inner with
    | none => exact absurd rfl hexported
    | some n =>
      cases n with
      | declaration q keyword ds =>
        cases ds with
        | nil => exact absurd rfl hexported
        | cons d ds => exact ⟨q, keyword, d, ds, rfl⟩
      | _ => exact absurd rfl hexported

lemma moduleShape_map_blank : ModuleShape (body.map Node.blank) ↔ ModuleShape body := by
  have hshape : ∀ ns : List Node, ModuleShape ns ↔
      (∀ n ∈ ns, n.isDeclaration ∨ n.isExportDefault ∨ n.isExportNamed ∨ n.isEmptyStatement) ∧
      ns.countP Node.isExportDefault = 1 ∧ ∀ n ∈ ns, n.isExportNamed → n.exported ≠ [] := by
    intro ns
    rw [← exportsDeclare_iff]
    constructor
    · intro h
      exact ⟨h.kinds, h.singleDefault, h.exportsDeclare⟩
    · rintro ⟨hkinds, hsingle, hdeclare⟩
      exact ⟨hkinds, hsingle, hdeclare⟩
  rw [hshape, hshape, countP_map_blank Node.isExportDefault_blank]
  simp

/-- The form of a module is its form without the values in it. -/
lemma inForm_map_blank {pos : Position} :
    (Program.mk pos (body.map Node.blank)).InForm ↔ (Program.mk pos body).InForm := by
  have hform : ∀ p : Program, p.InForm ↔ ModuleShape p.body ∧
      Declarable [] (declaratorsIn p.body) ∧ Declarable [] (exportedIn p.body) := by
    intro p
    constructor
    · intro h
      exact ⟨h.shape, h.declarable, h.exportable⟩
    · rintro ⟨hshape, hdeclarable, hexportable⟩
      exact ⟨hshape, hdeclarable, hexportable⟩
  rw [hform, hform, moduleShape_map_blank, declaratorsIn_map_blank, exportedIn_map_blank,
    declarable_map_blank, declarable_map_blank]

end Blank

namespace Formula

variable {mode : MemberMode}

/-! ### Values in context -/

/-- A place for a value: what stands there is one of the values of the whole, and the form of the
whole does not depend on it. -/
structure Passes {γ : Type} (values : γ → List Node) (form : γ → Prop) (outer : Node → γ) :
    Prop where
  value : ∃ before after, ∀ n, values (outer n) = before ++ n :: after
  form : ∀ m n, form (outer m) → form (outer n)

namespace Passes

variable {γ : Type} {values : γ → List Node} {form : γ → Prop} {outer : Node → γ} {m : Node}

lemma accepted (h : Passes values form outer) (hm : ∀ c ∈ values (outer m), Accepted c) :
    Accepted m := by
  obtain ⟨before, after, hvalues⟩ := h.value
  refine hm m ?_
  rw [hvalues]
  exact List.mem_append_right before List.mem_cons_self

/-- If all values have formulas with one of them in its place, they go as any other value there. -/
lemma agree (h : Passes values form outer) (hm : ∀ c ∈ values (outer m), Accepted c) (n : Node) :
    Agree (lowerAll mode (values (outer n))) (lower mode n) := by
  obtain ⟨before, after, hvalues⟩ := h.value
  rw [hvalues, List.forall_mem_append, List.forall_mem_cons] at hm
  obtain ⟨hbefore, -, hafter⟩ := hm
  rw [hvalues]
  exact agree_lowerAll_single hbefore hafter

end Passes

lemma accepted_of_place {outer : Node → Node} (h : Passes Node.values Node.InForm outer) {m : Node}
    (hm : Accepted (outer m)) : Accepted m :=
  h.accepted (accepted_iff_values.mp hm).2

/-- A node that has a formula with one value in a place goes as any other value there. -/
lemma agree_place {outer : Node → Node} (h : Passes Node.values Node.InForm outer) {m : Node}
    (hm : Accepted (outer m)) (n : Node) : Agree (lower mode (outer n)) (lower mode n) := by
  obtain ⟨hform, hvalues⟩ := accepted_iff_values.mp hm
  exact (agree_lower_values (h.form m n hform)).trans (h.agree hvalues n)

lemma passes_fill {f : Node.Frame} (hf : f.isValue) : Passes Node.values Node.InForm f.fill := by
  cases f with
  | binaryLeft pos sign r => exact ⟨⟨[], [r], fun _ => rfl⟩, fun _ _ h => h⟩
  | binaryRight pos l sign => exact ⟨⟨[l], [], fun _ => rfl⟩, fun _ _ h => h⟩
  | test pos c a => exact ⟨⟨[], [c, a], fun _ => rfl⟩, fun _ _ h => h⟩
  | consequent pos t a => exact ⟨⟨[t], [a], fun _ => rfl⟩, fun _ _ h => h⟩
  | alternate pos t c => exact ⟨⟨[t, c], [], fun _ => rfl⟩, fun _ _ h => h⟩
  | callee pos xs => exact ⟨⟨[], xs, fun _ => rfl⟩, fun _ _ h => h⟩
  | argument pos f before after => exact ⟨⟨f :: before, after, fun _ => rfl⟩, fun _ _ h => h⟩
  | object pos k computed => exact ⟨⟨[], [k], fun _ => rfl⟩, fun _ _ h => h⟩
  | property pos o computed => exact ⟨⟨[o], [], fun _ => rfl⟩, fun _ _ h => h⟩
  | component pos before after => exact ⟨⟨before, after, fun _ => rfl⟩, fun _ _ h => h⟩
  | arrowBody pos params => exact ⟨⟨[], [], fun _ => rfl⟩, fun _ _ h => h⟩
  | returned pos | wrapped pos | defaultExport pos =>
    exact ⟨⟨[], [], fun _ => rfl⟩, fun _ _ h => h⟩
  | _ => cases hf

/-- The form of a function body does not depend on the values in one of its statements. -/
lemma bodyShape_of_blank_eq {before after : List Node} {s s' : Node} (hblank : s.blank = s'.blank)
    (h : BodyShape (before ++ s :: after)) : BodyShape (before ++ s' :: after) := by
  rw [← bodyShape_map_blank, List.map_append, List.map_cons] at h ⊢
  rwa [← hblank]

lemma passes_declared (pos : Position) (before after : List Node) (q : Position) (keyword : Text)
    (ds : List (Declarator Node)) (place : Position) (id : Node) (es : List (Declarator Node)) :
    Passes Node.values Node.InForm fun n => .block pos
      (before ++ .declaration q keyword (ds ++ ⟨place, id, some n⟩ :: es) :: after) where
  value := by
    refine ⟨initsOf (declaratorsIn before) ++ initsOf ds, initsOf es ++
      (initsOf (declaratorsIn after) ++ (before ++ after).filterMap Node.returned?), fun n => ?_⟩
    simp [Node.values, declaratorsIn, initsOf, Node.declarators, Node.returned?,
      List.filterMap_cons]
  form m n := bodyShape_of_blank_eq (by simp [Node.blank, Node.blankValues, Declarator.blank])

lemma passes_returned (pos : Position) (before after : List Node) (q : Position) :
    Passes Node.values Node.InForm fun n => .block pos (before ++ .ret q (some n) :: after) where
  value := by
    refine ⟨initsOf (declaratorsIn before) ++ (initsOf (declaratorsIn after) ++
      before.filterMap Node.returned?), after.filterMap Node.returned?, fun n => ?_⟩
    simp [Node.values, declaratorsIn, initsOf, Node.declarators, Node.returned?]
  form m n := bodyShape_of_blank_eq rfl

/-- A tree that has a formula with one node in its hole goes as any other node there. -/
theorem agree_fill {c : Node.Context} (hc : c.Converts) {m : Node} (hm : Accepted (c.fill m))
    (n : Node) : Agree (lower mode (c.fill n)) (lower mode n) := by
  induction hc with
  | hole => exact agree_lower n
  | value hf _ ih =>
    have hplace := passes_fill hf
    exact (agree_place hplace hm _).trans (ih (accepted_of_place hplace hm))
  | declared pos before after q keyword ds place id es _ ih =>
    have hplace := passes_declared pos before after q keyword ds place id es
    exact (agree_place hplace hm _).trans (ih (accepted_of_place hplace hm))
  | returned pos before after q _ ih =>
    have hplace := passes_returned pos before after q
    exact (agree_place hplace hm _).trans (ih (accepted_of_place hplace hm))

/-! ### Values in modules -/

lemma accepted_of_place_onTop {outer : Node → Program}
    (h : Passes Program.values Program.InForm outer) {m : Node}
    (hm : AcceptedProgram (outer m)) : Accepted m :=
  h.accepted (acceptedProgram_iff_values.mp hm).2

/-- A module that compiles with one value in a place goes as any other value there. -/
lemma agree_place_onTop {outer : Node → Program} (h : Passes Program.values Program.InForm outer)
    {m : Node} (hm : AcceptedProgram (outer m)) (n : Node) :
    Agree (compile mode (outer n)) (lower mode n) := by
  obtain ⟨hform, hvalues⟩ := acceptedProgram_iff_values.mp hm
  exact (agree_compile_values (h.form m n hform)).trans (h.agree hvalues n)

/-- The form of a module does not depend on the values in one of its statements. -/
lemma inForm_of_blank_eq {pos : Position} {before after : List Node} {s s' : Node}
    (hblank : s.blank = s'.blank) (h : (Program.mk pos (before ++ s :: after)).InForm) :
    (Program.mk pos (before ++ s' :: after)).InForm := by
  rw [← inForm_map_blank, List.map_append, List.map_cons] at h ⊢
  rwa [← hblank]

lemma passes_top_declared (pos : Position) (before after : List Node) (q : Position)
    (keyword : Text) (ds : List (Declarator Node)) (place : Position) (id : Node)
    (es : List (Declarator Node)) :
    Passes Program.values Program.InForm fun n => Program.mk pos
      (before ++ .declaration q keyword (ds ++ ⟨place, id, some n⟩ :: es) :: after) where
  value := by
    refine ⟨initsOf (declaratorsIn before) ++ initsOf ds, initsOf es ++
      (initsOf (declaratorsIn after) ++ (defaultsIn (before ++ after) ++
        initsOf (exportedIn (before ++ after)))), fun n => ?_⟩
    simp [Program.values, declaratorsIn, defaultsIn, exportedIn, initsOf, Node.declarators,
      Node.default?, Node.exported, List.filterMap_cons]
  form m n := inForm_of_blank_eq (by simp [Node.blank, Node.blankValues, Declarator.blank])

lemma passes_top_default (pos : Position) (before after : List Node) (q : Position) :
    Passes Program.values Program.InForm fun n =>
      Program.mk pos (before ++ .exportDefault q n :: after) where
  value := by
    refine ⟨initsOf (declaratorsIn (before ++ after)) ++ defaultsIn before, defaultsIn after ++
      initsOf (exportedIn (before ++ after)), fun n => ?_⟩
    simp [Program.values, declaratorsIn, defaultsIn, exportedIn, initsOf, Node.declarators,
      Node.default?, Node.exported]
  form m n := inForm_of_blank_eq rfl

lemma passes_top_exported (pos : Position) (before after : List Node) (q r : Position)
    (keyword : Text) (ds : List (Declarator Node)) (place : Position) (id : Node)
    (es : List (Declarator Node)) :
    Passes Program.values Program.InForm fun n => Program.mk pos (before ++ .exportNamed q
      (some (.declaration r keyword (ds ++ ⟨place, id, some n⟩ :: es))) :: after) where
  value := by
    refine ⟨initsOf (declaratorsIn (before ++ after)) ++ (defaultsIn (before ++ after) ++
      (initsOf (exportedIn before) ++ initsOf ds)), initsOf es ++ initsOf (exportedIn after),
      fun n => ?_⟩
    simp [Program.values, declaratorsIn, defaultsIn, exportedIn, initsOf, Node.declarators,
      Node.default?, Node.exported, List.filterMap_cons]
  form m n := inForm_of_blank_eq (by simp [Node.blank, Node.blankValues, Declarator.blank])

/-- A module that compiles with one node in its hole goes as any other node there. -/
theorem agree_compile_fill {p : Program.Context} (hp : p.Converts) {m : Node}
    (hm : AcceptedProgram (p.fill m)) (n : Node) :
    Agree (compile mode (p.fill n)) (lower mode n) := by
  cases hp with
  | declared pos before after q keyword ds place id es hc =>
    have hplace := passes_top_declared pos before after q keyword ds place id es
    have hinner := accepted_of_place_onTop hplace hm
    exact (agree_place_onTop hplace hm _).trans (agree_fill hc hinner n)
  | exportedByDefault pos before after q hc =>
    have hplace := passes_top_default pos before after q
    have hinner := accepted_of_place_onTop hplace hm
    exact (agree_place_onTop hplace hm _).trans (agree_fill hc hinner n)
  | exportedByName pos before after q r keyword ds place id es hc =>
    have hplace := passes_top_exported pos before after q r keyword ds place id es
    have hinner := accepted_of_place_onTop hplace hm
    exact (agree_place_onTop hplace hm _).trans (agree_fill hc hinner n)

/-! ### Where a name can stand -/

variable {q : Position} {name : Text}

/-- What stands in the place of a declared name, and is not the hole itself, is no plain name. -/
lemma not_plain {f : Node.Frame} {c : Node.Context} {n : Node} (hf : f.isName)
    (hname : Node.Context.atName (f :: c) = false) : ¬ (c.fill n).name?.isSome := by
  intro hplain
  obtain rfl := Node.Context.eq_nil_of_name hplain
  have hhole : Node.Context.atName [f] = true := hf
  rw [hname] at hhole
  cases hhole

/-- In a tree that has a formula, a name is a value or a name that is declared. -/
theorem converts_of_accepted : ∀ {c : Node.Context},
    Accepted (c.fill (.identifier q name)) → c.atName = false → c.Converts
  | [], _, _ => .hole
  | f :: c, h, hname => by
    by_cases hf : f.isValue
    · have hc := accepted_of_place (passes_fill hf) h
      exact .value hf (converts_of_accepted hc (Node.Context.atName_tail hname))
    cases f with
    | blockStatement pos before after =>
      -- A statement is no value itself, so the value is two frames further in.
      have hshape : BodyShape (before ++ Node.Context.fill c (.identifier q name) :: after) :=
        (accepted_iff_values.mp h).1
      have hkind := hshape.kinds _ (List.mem_append_right before List.mem_cons_self)
      cases c with
      | nil => simp [Node.isDeclaration, Node.isReturn, Node.isEmptyStatement] at hkind
      | cons g c =>
        have hlater := Node.Context.atName_tail (Node.Context.atName_tail hname)
        cases g with
        | declaredValue r keyword ds place id es =>
          have hplace := passes_declared pos before after r keyword ds place id es
          exact .declared pos before after r keyword ds place id es
            (converts_of_accepted (accepted_of_place hplace h) hlater)
        | returned r =>
          have hplace := passes_returned pos before after r
          exact .returned pos before after r
            (converts_of_accepted (accepted_of_place hplace h) hlater)
        | declaredName r keyword ds place init es =>
          have hplain := hshape.plainNames ⟨place, Node.Context.fill c (.identifier q name), init⟩
            (by simp [declaratorsIn, Node.Frame.fill, Node.declarators])
          exact absurd hplain (not_plain rfl (Node.Context.atName_tail hname))
        | _ =>
          simp [Node.Frame.fill, Node.isDeclaration, Node.isReturn, Node.isEmptyStatement] at hkind
    | parameter pos before after body =>
      have hparams : ∀ p ∈ before ++ Node.Context.fill c (.identifier q name) :: after,
          p.name?.isSome := (accepted_iff_values.mp h).1
      have hthis := hparams _ (List.mem_append_right before List.mem_cons_self)
      exact absurd hthis (not_plain rfl hname)
    | programStatement | declaredName | declaredValue | declaratorName | declaratorValue
    | assignee | assigned | namedExport => cases h
    | _ => exact absurd rfl hf

/-- In a module that compiles, a name is in a value or a name that is declared. -/
theorem converts_of_acceptedProgram {p : Program.Context}
    (h : AcceptedProgram (p.fill (.identifier q name))) (hname : p.statement.atName = false) :
    p.Converts := by
  obtain ⟨pos, before, c, after⟩ := p
  have hmem : c.fill (.identifier q name) ∈ before ++ c.fill (.identifier q name) :: after :=
    List.mem_append_right before List.mem_cons_self
  have hkind := h.kinds _ hmem
  cases c with
  | nil =>
    simp [Node.isDeclaration, Node.isExportDefault, Node.isExportNamed,
      Node.isEmptyStatement] at hkind
  | cons f c =>
    have hlater : Node.Context.atName c = false := Node.Context.atName_tail hname
    cases f with
    | declaredValue r keyword ds place id es =>
      have hplace := passes_top_declared pos before after r keyword ds place id es
      exact .declared pos before after r keyword ds place id es
        (converts_of_accepted (accepted_of_place_onTop hplace h) hlater)
    | defaultExport r =>
      have hplace := passes_top_default pos before after r
      exact .exportedByDefault pos before after r
        (converts_of_accepted (accepted_of_place_onTop hplace h) hlater)
    | declaredName r keyword ds place init es =>
      have hbindable := h.bindable ⟨place, Node.Context.fill c (.identifier q name), init⟩
        (by simp [Program.Context.fill, declaratorsIn, Node.Frame.fill, Node.declarators])
      exact absurd hbindable.plainName (not_plain rfl hname)
    | namedExport r =>
      obtain ⟨s, keyword, d, ds, hinner⟩ := h.exportsDeclare r _ hmem
      cases c with
      | nil => cases hinner
      | cons g c =>
        cases g with
        | declaredValue s keyword ds place id es =>
          have hplace := passes_top_exported pos before after r s keyword ds place id es
          have hinner := accepted_of_place_onTop hplace h
          exact .exportedByName pos before after r s keyword ds place id es
            (converts_of_accepted hinner (Node.Context.atName_tail hlater))
        | declaredName s keyword ds place init es =>
          have hbindable := h.exportsBindable
            ⟨place, Node.Context.fill c (.identifier q name), init⟩
            (by simp [Program.Context.fill, exportedIn, Node.Frame.fill, Node.exported])
          exact absurd hbindable.plainName (not_plain rfl hlater)
        | _ => cases hinner
    | _ =>
      simp [Node.Frame.fill, Node.isDeclaration, Node.isExportDefault, Node.isExportNamed,
        Node.isEmptyStatement] at hkind

end Formula

/-- What is wrong with a value is what is wrong with the whole: a tree or a module that compiles
with a plain name in the place of a value compiles with any node there that has a formula, and fails
with the diagnostic of the node otherwise. An assignment has no formula, so a module that compiles
with a plain name in its place fails at the assignment, unless it stands for a declared name. -/
theorem failures_surface (mode mode' : MemberMode) (q : Position) (name : Text) :
    (∀ c : Node.Context, c.Converts →
      (∃ t, Formula.ofNode mode' (some (c.fill (.identifier q name))) = .ok t) → ∀ e : Node,
      ((∃ t, Formula.ofNode mode (some (c.fill e)) = .ok t) ↔
        ∃ t, Formula.ofNode mode (some e) = .ok t) ∧
      ∀ d, Formula.ofNode mode (some (c.fill e)) = .error d ↔
        Formula.ofNode mode (some e) = .error d) ∧
    (∀ p : Program.Context, p.Converts →
      (∃ u, Formula.compile mode' (p.fill (.identifier q name)) = .ok u) → ∀ e : Node,
      ((∃ u, Formula.compile mode (p.fill e) = .ok u) ↔
        ∃ t, Formula.ofNode mode (some e) = .ok t) ∧
      ∀ d, Formula.compile mode (p.fill e) = .error d ↔
        Formula.ofNode mode (some e) = .error d) ∧
    ∀ p : Program.Context, p.statement.atName = false →
      (∃ u, Formula.compile mode' (p.fill (.identifier q name)) = .ok u) →
      ∀ (pos : Position) (left : Node) (operator : Text) (right : Node), ∃ d,
        Formula.compile mode (p.fill (.assignment pos left operator right)) = .error d ∧
        d.code = "ASSIGN-0001" ∧ d.line = pos.line ∧ d.column = pos.column := by
  have hmodule : ∀ p : Program.Context, p.Converts →
      (∃ u, Formula.compile mode' (p.fill (.identifier q name)) = .ok u) → ∀ e : Node,
      Formula.Agree (Formula.compile mode (p.fill e)) (Formula.ofNode mode (some e)) := by
    intro p hp hu e
    have hagree : Formula.Agree (Formula.compile mode (p.fill e)) (Formula.lower mode e) :=
      Formula.agree_compile_fill hp (Formula.compile_isOk_iff.mp hu) e
    exact hagree.map_right fun _ _ _ => trivial
  refine ⟨?_, ?_, ?_⟩
  · rintro c hc ⟨t, ht⟩ e
    obtain ⟨x, hx, -⟩ := Formula.ofNode_eq_ok.mp ht
    have hagree : Formula.Agree (Formula.ofNode mode (some (c.fill e)))
        (Formula.ofNode mode (some e)) :=
      (Formula.agree_fill hc (Formula.accepted_of_lower hx) e).map fun _ _ _ => trivial
    exact ⟨hagree.isOk_iff, fun d => hagree.error_iff⟩
  · intro p hp hu e
    exact ⟨(hmodule p hp hu e).isOk_iff, fun d => (hmodule p hp hu e).error_iff⟩
  · intro p hname hu pos left operator right
    have hp := Formula.converts_of_acceptedProgram (Formula.compile_isOk_iff.mp hu) hname
    have hagree := hmodule p hp hu (.assignment pos left operator right)
    exact ⟨_, hagree.error_iff.mpr rfl, Fault.code_report _, rfl, rfl⟩

/-- A value inside a function body inside a declared value, and the same value assigned. -/
theorem deep_failure_surfaces :
    let x : Node := .identifier {} "x"
    let one : Node := .literal {} "1"
    let c : Node.Context := [.arrowBody {} [x], .blockStatement {} [] [.ret {} (some x)],
      .declaredValue {} "const" [] {} (.identifier {} "y") [], .object {} one true]
    let p : Program.Context := ⟨{}, [.exportDefault {} one], .declaredValue {} "const" [] {}
      (.identifier {} "f") [] :: c, []⟩
    let e : Node := .binary ⟨3, 5, 0, 0⟩ x "%" one
    Formula.ofNode .nested (some (c.fill x)) = .ok "LAMBDA(x, LET(y, INDEX(x, 1), x))" ∧
    Formula.ofNode .nested (some (c.fill e)) =
      .error ((Fault.unknownOperator "%").reportAt ⟨3, 5, 0, 0⟩) ∧
    (∃ u, Formula.compile .nested (p.fill x) = .ok u) ∧
    Formula.compile .nested (p.fill e) =
      .error ((Fault.unknownOperator "%").reportAt ⟨3, 5, 0, 0⟩) ∧
    ∃ d, Formula.compile .nested (p.fill (.assignment ⟨3, 5, 0, 0⟩ x "=" one)) = .error d ∧
      d.code = "ASSIGN-0001" ∧ d.line = 3 ∧ d.column = 5 := by
  intro x one c p e
  have hc : c.Converts := .value rfl (.declared _ _ _ _ _ _ _ _ _ (.value rfl .hole))
  have hp : p.Converts := .declared _ _ _ _ _ _ _ _ _ hc
  have hfilled : Formula.ofNode .nested (some (c.fill x)) =
      .ok "LAMBDA(x, LET(y, INDEX(x, 1), x))" := by rfl
  have hcompiled : ∃ u, Formula.compile .nested (p.fill x) = .ok u := ⟨_, by rfl⟩
  obtain ⟨htrees, hmodules, hassigned⟩ := failures_surface .nested .nested {} "x"
  refine ⟨hfilled, ?_, hcompiled, ?_, ?_⟩
  · exact ((htrees c hc ⟨_, hfilled⟩ e).2 _).mpr rfl
  · exact ((hmodules p hp hcompiled e).2 _).mpr rfl
  · exact hassigned p rfl hcompiled _ _ _ _

/-- An assignment in the place of a parameter is reported as a parameter that is no plain name. -/
theorem assigned_parameter_reported_as_parameter :
    let p : Program.Context :=
      ⟨{}, [], [.defaultExport {}, .parameter {} [] [] (.literal {} "1")], []⟩
    let a : Node := .assignment ⟨1, 17, 0, 0⟩ (.identifier {} "x") "=" (.literal {} "2")
    p.statement.atName = true ∧
    (∃ u, Formula.compile .nested (p.fill (.identifier {} "x")) = .ok u) ∧
    ∃ d, Formula.compile .nested (p.fill a) = .error d ∧ d.code = "NODE-0002" := by
  intro p a
  refine ⟨rfl, ⟨_, by rfl⟩, (Fault.parameterKind "AssignmentExpression").reportAt ⟨1, 17, 0, 0⟩,
    by rfl, ?_⟩
  exact Fault.code_report _

end SheetFormula
