import SheetFormula.Formula.Output
import SheetFormula.Proofs.Fault
import SheetFormula.Proofs.Formula.Body

/-!
# Where compilation fails

Every failure of compiling a tree is put down to a node of that tree: it is reported at the place
of the node, and never as a malformed tree. What a body takes from its statements are failures of
their parts and places to report at, so it is enough that both belong to the tree.
-/

namespace SheetFormula

open Result (Meets)

/-- Whether a place is the one of some node in a tree. -/
def Node.Site (root : Node) (p : Position) : Prop := ∃ m : Node, m.Within root ∧ m.pos = p

lemma Node.Within.site {m root : Node} (h : m.Within root) : root.Site m.pos := ⟨m, h, rfl⟩

/-- Whether a diagnostic puts something down to a node in a tree. -/
def Diagnostic.Blames (root : Node) (d : Diagnostic) : Prop :=
  ∃ f : Fault, ∃ p, f.isTree = false ∧ root.Site p ∧ d = f.reportAt p

namespace Formula

variable {root : Node} {mode : MemberMode}

/-- Whether every failure is put down to a node in the tree. -/
abbrev Blamed {α : Type} (root : Node) (x : Except Diagnostic α) : Prop :=
  Meets (fun _ => True) (Diagnostic.Blames root) x

/-- Bindings at places in the tree, or a failure that is put down to a node in it. -/
abbrev BoundIn (root : Node) (x : Except Diagnostic (List (Position × Binding))) : Prop :=
  Meets (fun bs => ∀ b ∈ bs, root.Site b.1) (Diagnostic.Blames root) x

lemma blames_reportAt {f : Fault} {p : Position} (hf : f.isTree = false) (hp : root.Site p) :
    Diagnostic.Blames root (f.reportAt p) := ⟨f, p, hf, hp, rfl⟩

/-! ### Lists of nodes -/

lemma blamed_lowerAll {ns : List Node} (h : ∀ n ∈ ns, Blamed root (lower mode n)) :
    Blamed root (lowerAll mode ns) := by
  induction ns with
  | nil => trivial
  | cons n rest ih =>
    obtain ⟨hn, hrest⟩ := List.forall_mem_cons.mp h
    exact hn.bind fun _ _ => (ih hrest).bind fun _ _ => trivial

lemma blamed_parameters {ps : List Node} (h : ∀ p ∈ ps, p.Within root) :
    Blamed root (parameters ps) := by
  induction ps with
  | nil => trivial
  | cons p rest ih =>
    obtain ⟨hp, hrest⟩ := List.forall_mem_cons.mp h
    cases p with
    | identifier pos name => exact (ih hrest).bind fun _ _ => trivial
    | _ => exact blames_reportAt rfl hp.site

lemma blamed_returned {pos : Position} {argument : Option Node} (hpos : root.Site pos)
    (h : ∀ n ∈ argument, Blamed root (lower mode n)) :
    Blamed root (returned mode pos argument) := by
  cases argument with
  | none => exact blames_reportAt rfl hpos
  | some n => exact (h n rfl).bind fun _ _ => trivial

lemma blamed_binding {d : Declarator Node} (hd : (Node.declarator d).Within root)
    (h : ∀ n ∈ d.init, Blamed root (lower mode n)) : Blamed root (binding mode d) := by
  have hsite : root.Site d.pos := hd.site
  obtain ⟨pos, id, init⟩ := d
  cases id with
  | identifier p name =>
    cases init with
    | none => exact blames_reportAt rfl hsite
    | some n => exact (h n rfl).bind fun _ _ => trivial
  | _ => cases init <;> exact blames_reportAt rfl hsite

lemma boundIn_bindings {ds : List (Declarator Node)}
    (hds : ∀ d ∈ ds, (Node.declarator d).Within root)
    (h : ∀ d ∈ ds, ∀ n ∈ d.init, Blamed root (lower mode n)) : BoundIn root (bindings mode ds) := by
  induction ds with
  | nil => exact fun b hb => absurd hb List.not_mem_nil
  | cons d rest ih =>
    obtain ⟨hd, hrest⟩ := List.forall_mem_cons.mp hds
    obtain ⟨hinit, hinits⟩ := List.forall_mem_cons.mp h
    refine (blamed_binding hd hinit).bind fun b _ => (ih hrest hinits).bind fun bs hbs => ?_
    exact List.forall_mem_cons.mpr ⟨hd.site, hbs⟩

lemma boundIn_declaration {pos : Position} {keyword : Text} {ds : List (Declarator Node)}
    (hwithin : (Node.declaration pos keyword ds).Within root)
    (h : ∀ m : Node, m.Within (.declaration pos keyword ds) → Blamed root (lower mode m)) :
    BoundIn root (bindings mode ds) := by
  have hd : ∀ d ∈ ds, (Node.declarator d).Within (.declaration pos keyword ds) := fun d hd =>
    .child (List.mem_map_of_mem hd)
  refine boundIn_bindings (fun d hmem => (hd d hmem).trans hwithin) fun d hmem n hn => ?_
  have hvalue : n.Within (.declarator d) :=
    .child (List.mem_cons_of_mem d.id (Option.mem_toList.mpr hn))
  exact h n (hvalue.trans (hd d hmem))

lemma boundIn_exported {pos : Position} {inner : Option Node} (hpos : root.Site pos)
    (hinner : ∀ n ∈ inner, n.Within root)
    (h : ∀ n ∈ inner, ∀ m : Node, m.Within n → Blamed root (lower mode m)) :
    BoundIn root (exported mode pos inner) := by
  cases inner with
  | none => exact blames_reportAt rfl hpos
  | some n =>
    cases n with
    | declaration p keyword ds =>
      cases ds with
      | nil => exact blames_reportAt rfl hpos
      | cons d rest => exact boundIn_declaration (hinner _ rfl) (h _ rfl)
    | other p kind => exact blames_reportAt rfl (hinner _ rfl).site
    | _ => exact blames_reportAt rfl hpos

lemma blamed_extend {scope : List Binding} {bs : List (Position × Binding)}
    (h : ∀ b ∈ bs, root.Site b.1) : Blamed root (extend scope bs) := by
  induction bs generalizing scope with
  | nil => trivial
  | cons b rest ih =>
    obtain ⟨hb, hrest⟩ := List.forall_mem_cons.mp h
    exact .ite (fun _ => blames_reportAt rfl hb) fun _ => ih hrest

/-! ### Bodies -/

/-- Whether a statement and the failures of its parts belong to a tree. -/
def StatementIn (root : Node) : Statement → Prop
  | .declare pos _ bindings | .exportNamed pos bindings => root.Site pos ∧ BoundIn root bindings
  | .ret pos value | .exportDefault pos value | .expression pos value =>
    root.Site pos ∧ Blamed root value
  | .other pos _ | .misplaced pos _ => root.Site pos

lemma statementIn_statement {n : Node} (hn : n.Within root)
    (h : ∀ m : Node, m.Within n → Blamed root (lower mode m)) :
    StatementIn root (statement mode n) := by
  have hpart : ∀ c ∈ n.children, ∀ m : Node, m.Within c → Blamed root (lower mode m) :=
    fun c hc m hm => h m (.deeper hc hm)
  cases n with
  | declaration pos keyword ds => exact ⟨hn.site, boundIn_declaration hn h⟩
  | ret pos argument =>
    exact ⟨hn.site, blamed_returned hn.site fun c hc =>
      hpart c (Option.mem_toList.mpr hc) c (.root c)⟩
  | exportNamed pos inner =>
    exact ⟨hn.site, boundIn_exported hn.site
      (fun c hc => (Node.Within.child (Option.mem_toList.mpr hc)).trans hn)
      fun c hc => hpart c (Option.mem_toList.mpr hc)⟩
  | expression pos inner | exportDefault pos inner =>
    exact ⟨hn.site, (hpart inner List.mem_cons_self inner (.root inner)).map fun _ _ => trivial⟩
  | _ => exact hn.site

lemma blamed_reject {place : Text} {s : Statement} (hs : StatementIn root s) :
    Blamed root (reject place s) := by
  cases s with
  | other pos kind => exact .ite (fun _ => trivial) fun _ => blames_reportAt rfl hs
  | expression pos value => exact hs.2.bind fun _ _ => blames_reportAt rfl hs.1
  | misplaced pos kind => exact blames_reportAt rfl hs
  | _ => exact blames_reportAt rfl hs.1

/-- Whether the returns of a function body belong to a tree. -/
def BodyIn (root : Node) (b : Body) : Prop :=
  ∀ r ∈ b.returns, root.Site r.1 ∧ Blamed root r.2

lemma meets_push {b : Body} {s : Statement} (hb : BodyIn root b) (hs : StatementIn root s) :
    Meets (BodyIn root) (Diagnostic.Blames root) (b.push s) := by
  cases s with
  | declare pos subject bindings =>
    refine .ite (fun _ => blames_reportAt rfl hs.1) fun _ => ?_
    exact hs.2.bind fun bs hbs => (blamed_extend hbs).bind fun _ _ => hb
  | ret pos value => exact List.forall_mem_append.mpr ⟨hb, List.forall_mem_cons.mpr ⟨hs, by simp⟩⟩
  | _ => exact (blamed_reject hs).bind fun _ _ => hb

lemma blamed_block {pos : Position} {ss : List Statement} (hpos : root.Site pos)
    (hss : ∀ s ∈ ss, StatementIn root s) : Blamed root (block pos ss) := by
  have hstart : BodyIn root {} := fun r hr => absurd hr List.not_mem_nil
  have hrun : Meets (BodyIn root) (Diagnostic.Blames root) (ss.foldlM Body.push {}) :=
    .foldlM (fun s hs b hb => meets_push hb (hss s hs)) hstart
  refine hrun.bind fun b hb => ?_
  unfold BodyIn at hb
  split
  · exact blames_reportAt rfl hpos
  · rename_i hreturns
    rw [hreturns] at hb
    exact (hb _ List.mem_cons_self).2.bind fun _ _ => trivial
  · rename_i hreturns
    rw [hreturns] at hb
    exact blames_reportAt rfl (hb _ (List.mem_cons_of_mem _ List.mem_cons_self)).1

/-- Every failure of a tree is put down to a node in it. -/
theorem blamed_lower {n : Node} (hn : n.Within root) : Blamed root (lower mode n) := by
  induction n using Node.withinInduction with
  | step n ih =>
    have part : ∀ c ∈ n.children, ∀ m : Node, m.Within c → Blamed root (lower mode m) :=
      fun c hc m hm => ih c hc m hm ((hm.trans (.child hc)).trans hn)
    have child : ∀ c ∈ n.children, Blamed root (lower mode c) := fun c hc =>
      part c hc c (.root c)
    have hchildren : ∀ c ∈ n.children, c.Within root := fun c hc =>
      (Node.Within.child hc).trans hn
    cases n with
    | identifier | literal => trivial
    | binary pos left sign right =>
      refine .ite (fun _ => ?_) fun _ => blames_reportAt rfl hn.site
      refine (child left (by simp [Node.children])).bind fun _ _ => ?_
      exact (child right (by simp [Node.children])).bind fun _ _ => trivial
    | conditional pos test consequent alternate =>
      refine (child test (by simp [Node.children])).bind fun _ _ => ?_
      refine (child consequent (by simp [Node.children])).bind fun _ _ => ?_
      exact (child alternate (by simp [Node.children])).bind fun _ _ => trivial
    | call pos callee arguments =>
      refine (child callee List.mem_cons_self).bind fun _ _ => ?_
      refine (blamed_lowerAll fun c hc => ?_).bind fun _ _ => trivial
      exact child c (List.mem_cons_of_mem callee hc)
    | member pos object property computed =>
      refine (child object (by simp [Node.children])).bind fun _ _ => ?_
      exact (child property (by simp [Node.children])).bind fun _ _ => trivial
    | sequence pos expressions => exact (blamed_lowerAll child).bind fun _ _ => trivial
    | arrow pos params body =>
      refine (blamed_parameters fun p hp => ?_).bind fun _ _ => ?_
      · exact hchildren p (List.mem_append_left _ hp)
      · exact (child body (by simp [Node.children])).bind fun _ _ => trivial
    | block pos body =>
      refine (blamed_block hn.site ?_).map fun _ _ => trivial
      rw [statements_eq_map, List.forall_mem_map]
      exact fun s hs => statementIn_statement (hchildren s hs) (part s hs)
    | ret pos argument =>
      refine (blamed_returned hn.site fun c hc => ?_).map fun _ _ => trivial
      exact child c (Option.mem_toList.mpr hc)
    | expression pos inner | exportDefault pos inner =>
      exact (child inner List.mem_cons_self).bind fun _ _ => trivial
    | _ => exact blames_reportAt rfl hn.site

/-! ### Modules -/

/-- Whether the exports of a module belong to a tree. -/
def ModuleIn (root : Node) (m : Module) : Prop :=
  (∀ value ∈ m.main, Blamed root value) ∧
    ∀ e ∈ m.named, root.Site e.1 ∧ BoundIn root e.2

lemma meets_modulePush {m : Module} {s : Statement} (hm : ModuleIn root m)
    (hs : StatementIn root s) :
    Meets (ModuleIn root) (Diagnostic.Blames root) (m.push s) := by
  obtain ⟨hmain, hnamed⟩ := hm
  cases s with
  | declare pos subject bindings =>
    exact hs.2.bind fun bs hbs => (blamed_extend hbs).bind fun _ _ => ⟨hmain, hnamed⟩
  | exportDefault pos value =>
    refine .ite (fun _ => blames_reportAt rfl hs.1) fun _ => ⟨fun v hv => ?_, hnamed⟩
    exact Option.mem_some.mp hv ▸ hs.2
  | exportNamed pos bindings =>
    exact ⟨hmain, List.forall_mem_append.mpr ⟨hnamed, List.forall_mem_cons.mpr ⟨hs, by simp⟩⟩⟩
  | _ => exact (blamed_reject hs).bind fun _ _ => ⟨hmain, hnamed⟩

lemma blamed_exportAll {scope done : List Binding} {pos : Position}
    {bs : List (Position × Binding)} (hpos : root.Site pos) :
    Blamed root (exportAll scope pos done bs) := by
  induction bs generalizing done with
  | nil => trivial
  | cons b rest ih => exact .ite (fun _ => blames_reportAt rfl hpos) fun _ => ih

lemma blamed_exports {scope : List Binding}
    {named : List (Position × Except Diagnostic (List (Position × Binding)))}
    (h : ∀ e ∈ named, root.Site e.1 ∧ BoundIn root e.2) : Blamed root (exports scope named) :=
  .foldlM (fun e he _ _ => (h e he).2.bind fun _ _ => blamed_exportAll (h e he).1) trivial

lemma blamed_compile (p : Program) : Blamed p.toNode (compile mode p) := by
  have hstart : ModuleIn p.toNode {} :=
    ⟨fun value hvalue => absurd hvalue (by simp), fun e he => absurd he List.not_mem_nil⟩
  have hstatements : ∀ s ∈ statements mode p.body, StatementIn p.toNode s := by
    rw [statements_eq_map, List.forall_mem_map]
    intro n hn
    have hwithin : n.Within p.toNode := .child hn
    exact statementIn_statement hwithin fun m hm => blamed_lower (hm.trans hwithin)
  have hrun : Meets (ModuleIn p.toNode) (Diagnostic.Blames p.toNode)
      ((statements mode p.body).foldlM Module.push {}) :=
    .foldlM (fun s hs m hm => meets_modulePush hm (hstatements s hs)) hstart
  refine hrun.bind fun m ⟨hmain, hnamed⟩ => ?_
  split
  · exact blames_reportAt rfl (Node.Within.root p.toNode).site
  · rename_i main hsome
    exact (hmain main hsome).bind fun _ _ => (blamed_exports hnamed).bind fun _ _ => trivial

end Formula

/-- Every failure of a program is put down to a node in it. -/
theorem Output.blamed_ofProgram (mode : OutputMode) (members : MemberMode) (p : Program) :
    Formula.Blamed p.toNode (ofProgram mode members (some p)) := by
  refine (Formula.blamed_compile p).bind fun u _ => ?_
  cases mode with
  | packed => trivial
  | unpacked =>
    refine .ite (fun _ => ?_) fun _ => trivial
    exact Formula.blames_reportAt rfl (Node.Within.root p.toNode).site

end SheetFormula
