import SheetFormula.Proofs.Fault
import SheetFormula.Proofs.Formula.Runs

/-!
# What a formula does not depend on

Positions, the keywords of declarations and the marks of computed accesses have no influence on what
a tree or a module comes to. They show in diagnostics only: positions as line and column, the rest
where a message repeats a part of the tree.
-/

namespace SheetFormula

open Result (Alike)

/-! ### Trees without marks -/

namespace Node

mutual

/-- A tree without positions and, on request, without the keywords of declarations and the marks of
computed accesses. -/
def bare (marks : Bool) : Node → Node
  | program _ body => program {} (bareAll marks body)
  | identifier _ name => identifier {} name
  | literal _ raw => literal {} raw
  | binary _ left operator right => binary {} (bare marks left) operator (bare marks right)
  | conditional _ test consequent alternate =>
    conditional {} (bare marks test) (bare marks consequent) (bare marks alternate)
  | call _ callee arguments => call {} (bare marks callee) (bareAll marks arguments)
  | member _ object property computed =>
    member {} (bare marks object) (bare marks property) (!marks && computed)
  | sequence _ expressions => sequence {} (bareAll marks expressions)
  | arrow _ params body => arrow {} (bareAll marks params) (bare marks body)
  | block _ body => block {} (bareAll marks body)
  | declaration _ keyword declarators =>
    declaration {} (Text.when (!marks) keyword) (bareDeclarators marks declarators)
  | declarator d => declarator (bareDeclarator marks d)
  | ret _ none => ret {} none
  | ret _ (some argument) => ret {} (some (bare marks argument))
  | expression _ inner => expression {} (bare marks inner)
  | assignment _ left operator right => assignment {} (bare marks left) operator (bare marks right)
  | exportDefault _ inner => exportDefault {} (bare marks inner)
  | exportNamed _ none => exportNamed {} none
  | exportNamed _ (some inner) => exportNamed {} (some (bare marks inner))
  | other _ kind => other {} kind

def bareAll (marks : Bool) : List Node → List Node
  | [] => []
  | n :: rest => bare marks n :: bareAll marks rest

def bareDeclarator (marks : Bool) : Declarator Node → Declarator Node
  | ⟨_, id, none⟩ => ⟨{}, bare marks id, none⟩
  | ⟨_, id, some init⟩ => ⟨{}, bare marks id, some (bare marks init)⟩

def bareDeclarators (marks : Bool) : List (Declarator Node) → List (Declarator Node)
  | [] => []
  | d :: rest => bareDeclarator marks d :: bareDeclarators marks rest

end

variable {marks : Bool}

lemma bareAll_eq_map (ns : List Node) : bareAll marks ns = ns.map (bare marks) := by
  induction ns with
  | nil => rfl
  | cons n rest ih => rw [bareAll, ih, List.map_cons]

/-! ### Texts of trees -/

lemma renderAll_bareAll {ns : List Node} (h : ∀ n ∈ ns, (n.bare false).render = n.render) :
    renderAll (bareAll false ns) = renderAll ns := by
  induction ns with
  | nil => rfl
  | cons n rest ih =>
    obtain ⟨hn, hrest⟩ := List.forall_mem_cons.mp h
    rw [bareAll, renderAll, renderAll, hn, ih hrest]

lemma renderDeclarators_bare {ds : List (Declarator Node)}
    (h : ∀ n ∈ ds.map declarator, (n.bare false).render = n.render) :
    renderDeclarators (bareDeclarators false ds) = renderDeclarators ds := by
  induction ds with
  | nil => rfl
  | cons d rest ih =>
    obtain ⟨hd, hrest⟩ := List.forall_mem_cons.mp h
    have hd' : renderDeclarator (bareDeclarator false d) = renderDeclarator d := hd
    rw [bareDeclarators, renderDeclarators, renderDeclarators, hd', ih hrest]

/-- Positions do not show in the text of a tree. -/
lemma render_bare (n : Node) : (n.bare false).render = n.render := by
  induction n using childInduction with
  | step n ih =>
    cases n with
    | identifier | literal | other => rfl
    | program pos body | block pos body | sequence pos body =>
      have hbody : renderAll (bareAll false body) = renderAll body := renderAll_bareAll ih
      simp only [bare, render, hbody]
    | binary pos left operator right | assignment pos left operator right =>
      simp only [bare, render, ih left (by simp [children]), ih right (by simp [children])]
    | conditional pos test consequent alternate =>
      simp only [bare, render, ih test (by simp [children]), ih consequent (by simp [children]),
        ih alternate (by simp [children])]
    | call pos callee arguments =>
      obtain ⟨hcallee, harguments⟩ := List.forall_mem_cons.mp ih
      simp only [bare, render, hcallee, renderAll_bareAll harguments]
    | member pos object property computed =>
      simp only [bare, render, ih object (by simp [children]), ih property (by simp [children]),
        Bool.not_false, Bool.true_and]
    | arrow pos params body =>
      obtain ⟨hparams, hbody⟩ := List.forall_mem_append.mp ih
      simp only [bare, render, renderAll_bareAll hparams, hbody body List.mem_cons_self]
    | declaration pos keyword ds =>
      simp only [bare, render, renderDeclarators_bare ih, Bool.not_false, Text.when, if_true]
    | declarator d =>
      obtain ⟨pos, id, init⟩ := d
      obtain ⟨hid, hinit⟩ := List.forall_mem_cons.mp ih
      cases init with
      | none => simp only [bare, bareDeclarator, render, renderDeclarator, hid]
      | some value =>
        simp only [bare, bareDeclarator, render, renderDeclarator, hid,
          hinit value (by simp)]
    | ret pos inner | exportNamed pos inner =>
      cases inner with
      | none => rfl
      | some value => simp only [bare, render, ih value (by simp [children])]
    | expression pos inner | exportDefault pos inner =>
      simp only [bare, render, ih inner (by simp [children])]

end Node

def Program.bare (marks : Bool) (p : Program) : Program := ⟨{}, Node.bareAll marks p.body⟩

/-! ### Diagnostics -/

/-- Diagnostics with one code and class; as long as no marks are taken away, they differ in line and
column at most. -/
structure Diagnostic.SameUpTo (marks : Bool) (d e : Diagnostic) : Prop where
  code : d.code = e.code
  cls : d.cls = e.cls
  rest : marks = false → d.atPlace 0 0 = e.atPlace 0 0

namespace Diagnostic.SameUpTo

variable {marks : Bool} {c d e : Diagnostic}

lemma of_common (hc : SameUpTo marks c e) (hd : SameUpTo marks d e) : SameUpTo marks c d :=
  ⟨hc.code.trans hd.code.symm, hc.cls.trans hd.cls.symm,
    fun h => (hc.rest h).trans (hd.rest h).symm⟩

end Diagnostic.SameUpTo

/-- The class of a report comes from its code. -/
lemma Fault.cls_report_congr {f g : Fault} (h : f.code = g.code) : f.report.cls = g.report.cls := by
  rw [report, report, Diagnostic.ofCode, Diagnostic.ofCode, h]
  split <;> rfl

lemma Fault.sameUpTo_reportAt {marks : Bool} {f g : Fault} (hcode : f.code = g.code)
    (h : marks = false → f = g) (p q : Position) :
    (f.reportAt p).SameUpTo marks (g.reportAt q) := by
  refine ⟨?_, cls_report_congr hcode, fun hmarks => ?_⟩
  · exact (code_report f).trans (hcode.trans (code_report g).symm)
  · rw [h hmarks]
    rfl

/-! ### Formulas of trees -/

namespace Formula

variable {marks : Bool} {mode : MemberMode}

/-- Both give the same, or fail with the same diagnostic up to marks. -/
abbrev SameUpTo (marks : Bool) {α : Type} (x y : Except Diagnostic α) : Prop :=
  Alike Eq (Diagnostic.SameUpTo marks) x y

/-- Whether a tree comes to the same with and without marks. -/
abbrev Unmarked (marks : Bool) (mode : MemberMode) (n : Node) : Prop :=
  SameUpTo marks (lower mode n) (lower mode (n.bare marks))

lemma sameUpTo_reportAt (f : Fault) (p q : Position) :
    (f.reportAt p).SameUpTo marks (f.reportAt q) :=
  Fault.sameUpTo_reportAt rfl (fun _ => rfl) p q

lemma placesAlike_sameUpTo (p q : Position) : PlacesAlike (Diagnostic.SameUpTo marks) p q :=
  fun f => sameUpTo_reportAt f p q

lemma unmarked_parameters (ps : List Node) :
    SameUpTo marks (parameters ps) (parameters (Node.bareAll marks ps)) := by
  induction ps with
  | nil => rfl
  | cons p rest ih =>
    cases p with
    | identifier pos name => exact ih.bind fun _ _ h => congrArg (name :: ·) h
    | ret pos inner | exportNamed pos inner => cases inner <;> exact sameUpTo_reportAt _ _ _
    | _ => exact sameUpTo_reportAt _ _ _

lemma unmarked_lowerAll {ns : List Node} (h : ∀ n ∈ ns, Unmarked marks mode n) :
    SameUpTo marks (lowerAll mode ns) (lowerAll mode (Node.bareAll marks ns)) := by
  induction ns with
  | nil => rfl
  | cons n rest ih =>
    obtain ⟨hn, hrest⟩ := List.forall_mem_cons.mp h
    refine hn.bind fun x y hxy => (ih hrest).bind fun xs ys hxys => ?_
    rw [hxy, hxys]
    rfl

lemma unmarked_returned (pos : Position) {argument : Option Node}
    (h : ∀ n ∈ argument, Unmarked marks mode n) :
    SameUpTo marks (returned mode pos argument)
      (returned mode {} (argument.map (Node.bare marks))) := by
  cases argument with
  | none => exact sameUpTo_reportAt _ _ _
  | some n => exact (h n rfl).bind fun _ _ hxy => congrArg Lowered.formula hxy

lemma unmarked_binding {d : Declarator Node} (h : ∀ n ∈ d.init, Unmarked marks mode n) :
    Alike (BindingAlike Eq) (Diagnostic.SameUpTo marks) (binding mode d)
      (binding mode (Node.bareDeclarator marks d)) := by
  obtain ⟨pos, id, init⟩ := d
  cases id with
  | identifier p name =>
    cases init with
    | none => exact sameUpTo_reportAt _ _ _
    | some n => exact (h n rfl).bind fun _ _ hxy => ⟨rfl, congrArg Lowered.formula hxy⟩
  | ret p inner | exportNamed p inner =>
    cases inner <;> cases init <;> exact sameUpTo_reportAt _ _ _
  | _ => cases init <;> exact sameUpTo_reportAt _ _ _

lemma unmarked_bindings {ds : List (Declarator Node)}
    (h : ∀ d ∈ ds, ∀ n ∈ d.init, Unmarked marks mode n) :
    BoundAlike Eq (Diagnostic.SameUpTo marks) (bindings mode ds)
      (bindings mode (Node.bareDeclarators marks ds)) := by
  induction ds with
  | nil => exact .nil
  | cons d rest ih =>
    obtain ⟨hd, hrest⟩ := List.forall_mem_cons.mp h
    refine (unmarked_binding hd).bind fun b c hbc => (ih hrest).bind fun bs cs hbs => ?_
    exact .cons ⟨placesAlike_sameUpTo _ _, hbc⟩ hbs

lemma unmarked_declaration {pos : Position} {keyword : Text} {ds : List (Declarator Node)}
    (h : ∀ m : Node, m.Within (.declaration pos keyword ds) → Unmarked marks mode m) :
    BoundAlike Eq (Diagnostic.SameUpTo marks) (bindings mode ds)
      (bindings mode (Node.bareDeclarators marks ds)) := by
  refine unmarked_bindings fun d hd n hn => ?_
  have hvalue : n.Within (.declarator d) :=
    .child (List.mem_cons_of_mem d.id (Option.mem_toList.mpr hn))
  exact h n (hvalue.trans (.child (List.mem_map_of_mem hd)))

lemma unmarked_exported (pos : Position) {inner : Option Node}
    (h : ∀ n ∈ inner, ∀ m : Node, m.Within n → Unmarked marks mode m) :
    BoundAlike Eq (Diagnostic.SameUpTo marks) (exported mode pos inner)
      (exported mode {} (inner.map (Node.bare marks))) := by
  cases inner with
  | none => exact sameUpTo_reportAt _ _ _
  | some n =>
    cases n with
    | declaration p keyword ds =>
      cases ds with
      | nil => exact sameUpTo_reportAt _ _ _
      | cons d rest => exact unmarked_declaration (h _ rfl)
    | ret p inner | exportNamed p inner => cases inner <;> exact sameUpTo_reportAt _ _ _
    | _ => exact sameUpTo_reportAt _ _ _

/-- The first name of a declaration is repeated in a message, and may show marks there. -/
lemma sameUpTo_unreachable (ds : List (Declarator Node)) (p q : Position) :
    ((Fault.unreachable (subject ds)).reportAt p).SameUpTo marks
      ((Fault.unreachable (subject (Node.bareDeclarators marks ds))).reportAt q) := by
  refine Fault.sameUpTo_reportAt (by rfl) (fun hmarks => ?_) p q
  subst hmarks
  cases ds with
  | nil => rfl
  | cons d rest =>
    obtain ⟨pos, id, init⟩ := d
    cases init <;> exact congrArg Fault.unreachable (Node.render_bare id).symm

lemma unmarked_statement {n : Node} (h : ∀ m : Node, m.Within n → Unmarked marks mode m) :
    StatementAlike Eq (Diagnostic.SameUpTo marks) (statement mode n)
      (statement mode (n.bare marks)) := by
  have hpart : ∀ c ∈ n.children, ∀ m : Node, m.Within c → Unmarked marks mode m :=
    fun c hc m hm => h m (.deeper hc hm)
  have hvalue : ∀ inner, inner ∈ n.children →
      SameUpTo marks ((lower mode inner).map (·.formula))
        ((lower mode (inner.bare marks)).map (·.formula)) :=
    fun inner hmem => (hpart inner hmem inner (.root inner)).map fun _ _ hxy => by rw [hxy]
  cases n with
  | declaration pos keyword ds =>
    exact .declare (placesAlike_sameUpTo _ _) (sameUpTo_unreachable ds _ _)
      (unmarked_declaration h)
  | ret pos argument =>
    have hreturned := unmarked_returned pos fun c (hc : c ∈ argument) =>
      hpart c (Option.mem_toList.mpr hc) c (.root c)
    cases argument <;> exact .ret (placesAlike_sameUpTo _ _) hreturned
  | exportDefault pos inner =>
    exact .exportDefault (placesAlike_sameUpTo _ _) (hvalue inner List.mem_cons_self)
  | exportNamed pos inner =>
    have hexported := unmarked_exported pos fun c (hc : c ∈ inner) =>
      hpart c (Option.mem_toList.mpr hc)
    cases inner <;> exact .exportNamed (placesAlike_sameUpTo _ _) hexported
  | expression pos inner =>
    exact .expression (placesAlike_sameUpTo _ _) (hvalue inner List.mem_cons_self)
  | other pos kind => exact .other kind (placesAlike_sameUpTo _ _)
  | _ => exact .misplaced _ (placesAlike_sameUpTo _ _)

lemma unmarked_statements {body : List Node}
    (h : ∀ n ∈ body, ∀ m : Node, m.Within n → Unmarked marks mode m) :
    List.Forall₂ (StatementAlike Eq (Diagnostic.SameUpTo marks)) (statements mode body)
      (statements mode (Node.bareAll marks body)) := by
  rw [statements_eq_map, statements_eq_map, Node.bareAll_eq_map, List.map_map,
    List.forall₂_map_left_iff, List.forall₂_map_right_iff, List.forall₂_same]
  exact fun n hn => unmarked_statement (h n hn)

lemma eq_of_scopesAlike {bs cs : List Binding} (h : ScopesAlike Eq bs cs) : bs = cs := by
  refine List.forall₂_eq_eq_eq ▸ h.imp ?_
  rintro ⟨name, formula⟩ ⟨_, _⟩ ⟨rfl, rfl⟩
  rfl

lemma letIn_congr (bs cs : List Binding) (t u : Text) (hscope : ScopesAlike Eq bs cs)
    (htu : t = u) : letIn bs t = letIn cs u := by
  rw [eq_of_scopesAlike hscope, htu]

/-- A tree comes to the same with and without marks. -/
theorem unmarked_lower (n : Node) : Unmarked marks mode n := by
  -- A block lowers trees that stand deeper in it than its children, so the induction is over all
  -- trees within.
  induction n using Node.withinInduction with
  | step n ih =>
    have child : ∀ c ∈ n.children, Unmarked marks mode c := fun c hc => ih c hc c (.root c)
    cases n with
    | identifier | literal => rfl
    | binary pos left sign right =>
      refine .ite Iff.rfl (fun _ => ?_) fun _ => sameUpTo_reportAt _ _ _
      refine (child left (by simp [Node.children])).bind fun x x' hx => ?_
      refine (child right (by simp [Node.children])).bind fun y y' hy => ?_
      rw [hx, hy]
      rfl
    | conditional pos test consequent alternate =>
      refine (child test (by simp [Node.children])).bind fun x x' hx => ?_
      refine (child consequent (by simp [Node.children])).bind fun y y' hy => ?_
      refine (child alternate (by simp [Node.children])).bind fun z z' hz => ?_
      rw [hx, hy, hz]
      rfl
    | call pos callee arguments =>
      obtain ⟨hcallee, harguments⟩ := List.forall_mem_cons.mp child
      refine hcallee.bind fun x x' hx => (unmarked_lowerAll harguments).bind fun xs xs' hxs => ?_
      rw [hx, hxs]
      rfl
    | member pos object property computed =>
      refine (child object (by simp [Node.children])).bind fun x x' hx => ?_
      refine (child property (by simp [Node.children])).bind fun y y' hy => ?_
      rw [hx, hy]
      rfl
    | sequence pos expressions =>
      refine (unmarked_lowerAll child).bind fun xs xs' hxs => ?_
      rw [hxs]
      rfl
    | arrow pos params body =>
      refine (unmarked_parameters params).bind fun names names' hnames => ?_
      refine (child body (by simp [Node.children])).bind fun x x' hx => ?_
      rw [hnames, hx]
      rfl
    | block pos body =>
      have hblock := alike_block (placesAlike_sameUpTo pos {}) (unmarked_statements ih) letIn_congr
      exact hblock.map fun _ _ hxy => congrArg Lowered.single hxy
    | ret pos argument =>
      have hreturned := unmarked_returned pos fun c (hc : c ∈ argument) =>
        child c (Option.mem_toList.mpr hc)
      cases argument <;> exact hreturned.map fun _ _ hxy => congrArg Lowered.single hxy
    | expression pos inner | exportDefault pos inner =>
      refine (child inner List.mem_cons_self).bind fun x x' hx => ?_
      rw [hx]
      rfl
    | assignment pos left operator right =>
      refine Fault.sameUpTo_reportAt (by rfl) (fun hmarks => ?_) _ _
      subst hmarks
      rw [Node.render_bare]
    | exportNamed pos inner => cases inner <;> exact sameUpTo_reportAt _ _ _
    | _ => exact sameUpTo_reportAt _ _ _

lemma sameUpTo_ofNode (n : Node) :
    SameUpTo marks (ofNode mode (some n)) (ofNode mode (some (n.bare marks))) :=
  (unmarked_lower n).map fun _ _ hxy => congrArg Lowered.formula hxy

/-! ### Modules -/

theorem sameUpTo_compile (p : Program) :
    SameUpTo marks (compile mode p) (compile mode (p.bare marks)) := by
  have halike : Alike (UnitsAlike Eq) (Diagnostic.SameUpTo marks) (compile mode p)
      (compile mode (p.bare marks)) :=
    alike_compile (placesAlike_sameUpTo _ _) (unmarked_statements fun _ _ m _ => unmarked_lower m)
      letIn_congr
  refine halike.mono ?_
  rintro ⟨bs, main, es⟩ ⟨bs', main', es'⟩ ⟨hbindings, hmain, hexports⟩
  obtain rfl : bs = bs' := eq_of_scopesAlike hbindings
  obtain rfl : main = main' := hmain
  obtain rfl : es = es' := eq_of_scopesAlike hexports
  rfl

lemma sameUpTo_ofUnit (shape : OutputMode) (p q : Position) (u : CompiledUnit) :
    SameUpTo marks (Output.ofUnit shape p u) (Output.ofUnit shape q u) := by
  cases shape with
  | packed => rfl
  | unpacked => exact .ite Iff.rfl (fun _ => sameUpTo_reportAt _ _ _) fun _ => rfl

lemma sameUpTo_ofProgram (shape : OutputMode) (p : Program) :
    SameUpTo marks (Output.ofProgram shape mode (some p))
      (Output.ofProgram shape mode (some (p.bare marks))) := by
  refine (sameUpTo_compile p).bind ?_
  rintro u _ rfl
  exact sameUpTo_ofUnit shape _ _ u

/-- Trees that are the same without marks come to the same. -/
lemma SameUpTo.of_bare {α β : Type} {f : α → Except Diagnostic β} {erase : α → α}
    (h : ∀ a, SameUpTo marks (f a) (f (erase a))) {a b : α} (hab : erase a = erase b) :
    SameUpTo marks (f a) (f b) := by
  have hb := h b
  rw [← hab] at hb
  exact (h a).of_common hb fun _ _ _ => .of_common

end Formula

/-- Positions, the keywords of declarations and the marks of computed accesses have no influence on
formulas: trees and modules that differ in them alone give the same formula and the same output, or
both fail with one code and class. Where they differ in positions alone, both fail with the same
diagnostic up to line and column. -/
theorem formulas_ignore_marks (members : MemberMode) :
    (∀ a b : Node,
      (a.bare true = b.bare true →
        Alike Eq (fun d e => d.code = e.code ∧ d.cls = e.cls)
          (Formula.ofNode members (some a)) (Formula.ofNode members (some b))) ∧
      (a.bare false = b.bare false →
        Alike Eq (fun d e => d.atPlace 0 0 = e.atPlace 0 0)
          (Formula.ofNode members (some a)) (Formula.ofNode members (some b)))) ∧
    ∀ (shape : OutputMode) (p q : Program),
      (p.bare true = q.bare true →
        Alike Eq (fun d e => d.code = e.code ∧ d.cls = e.cls)
          (Output.ofProgram shape members (some p)) (Output.ofProgram shape members (some q))) ∧
      (p.bare false = q.bare false →
        Alike Eq (fun d e => d.atPlace 0 0 = e.atPlace 0 0)
          (Output.ofProgram shape members (some p))
          (Output.ofProgram shape members (some q))) := by
  refine ⟨fun a b => ⟨fun hab => ?_, fun hab => ?_⟩, fun shape p q =>
    ⟨fun hpq => ?_, fun hpq => ?_⟩⟩
  · exact (Formula.SameUpTo.of_bare Formula.sameUpTo_ofNode hab).mono_fail
      fun _ _ h => ⟨h.code, h.cls⟩
  · exact (Formula.SameUpTo.of_bare Formula.sameUpTo_ofNode hab).mono_fail
      fun _ _ h => h.rest rfl
  · exact (Formula.SameUpTo.of_bare (Formula.sameUpTo_ofProgram shape) hpq).mono_fail
      fun _ _ h => ⟨h.code, h.cls⟩
  · exact (Formula.SameUpTo.of_bare (Formula.sameUpTo_ofProgram shape) hpq).mono_fail
      fun _ _ h => h.rest rfl

/-- A tree that assigns to an access, with a place and with or without the mark of a computed
access. -/
def assigned (pos : Position) (computed : Bool) : Node :=
  .assignment pos (.member pos (.identifier {} "a") (.identifier {} "i") computed) "="
    (.literal {} "1")

/-- A module whose default export is an access, with a place, a keyword and a mark. -/
def accessed (pos : Position) (keyword : Text) (computed : Bool) : Program :=
  ⟨pos, [.declaration pos keyword [⟨pos, .identifier pos "a", some (.literal pos "1")⟩],
    .exportDefault pos (.member pos (.identifier pos "a") (.literal pos "2") computed)]⟩

/-- An assignment to a computed access fails as one to a named access does, with another message;
the messages of the same assignment at two places are equal. Modules with other keywords and marks
have one formula. -/
theorem marks_show_in_messages_only :
    Alike Eq (fun d e => d.code = e.code ∧ d.cls = e.cls)
        (Formula.ofNode .nested (some (assigned {} true)))
        (Formula.ofNode .nested (some (assigned {} false))) ∧
      Formula.ofNode .nested (some (assigned {} true)) ≠
        Formula.ofNode .nested (some (assigned {} false)) ∧
      Alike Eq (fun d e => d.atPlace 0 0 = e.atPlace 0 0)
        (Formula.ofNode .nested (some (assigned {} true)))
        (Formula.ofNode .nested (some (assigned { line := 3, column := 1 } true))) ∧
      Alike Eq (fun d e => d.code = e.code ∧ d.cls = e.cls)
        (Output.ofProgram .packed .nested (some (accessed {} "const" false)))
        (Output.ofProgram .packed .nested (some (accessed { line := 2 } "let" true))) ∧
      (Output.ofProgram .packed .nested (some (accessed {} "const" false))).map (·.packed) =
        .ok "=LET(a, 1, INDEX(a, 2))" :=
  ⟨((formulas_ignore_marks .nested).1 _ _).1 rfl, by decide,
    ((formulas_ignore_marks .nested).1 _ _).2 rfl,
    ((formulas_ignore_marks .nested).2 .packed _ _).1 rfl, by rfl⟩

end SheetFormula
