import Mathlib.Tactic.SplitIfs
import SheetFormula.Proofs.Fault
import SheetFormula.Proofs.Result
import SheetFormula.Proofs.Tree.Parts
import SheetFormula.Tree.Decode

/-!
# What reading a tree gives

Whatever text is read, the result is a tree of named and placed nodes, or a report that the text is
no tree. Both are followed through the fields of an object: if the values in them are sound as
nodes, the object is.
-/

namespace SheetFormula

/-- Whether a place is known as a whole or not at all. -/
def Position.Placed (p : Position) : Prop := 0 < p.line ∨ (p.line = 0 ∧ p.column = 0)

/-- What holds of every node of a tree that has been read. -/
def Node.Sound (n : Node) : Prop := ∀ m : Node, m.Within n → m.Telling ∧ m.pos.Placed

lemma Node.Sound.of_children {n : Node} (htelling : n.Telling) (hpos : n.pos.Placed)
    (hchildren : ∀ c ∈ n.children, c.Sound) : n.Sound :=
  Node.forall_within_iff.mpr ⟨⟨htelling, hpos⟩, hchildren⟩

/-- Whether a diagnostic says that a text is no tree. -/
def Diagnostic.OfTree (d : Diagnostic) : Prop := d.code ∈ Fault.treeCodes

lemma Fault.ofTree_report {f : Fault} (h : f.isTree = true) : f.report.OfTree := by
  rw [Diagnostic.OfTree, code_report]
  exact f.code_mem_treeCodes.mpr h

lemma Fault.ofTree_reportAt {f : Fault} (h : f.isTree = true) (p : Position) :
    (f.reportAt p).OfTree := ofTree_report h

namespace Tree

open Json (Name Value)
open Result (Meets)

/-- Whether an outcome is a sound tree, nothing, or a report that the text is no tree. -/
def Outcome.Sound (o : Outcome) : Prop := Meets (fun n => ∀ m ∈ n, m.Sound) Diagnostic.OfTree o

/-- Whether a member is sound as a node and as a list of nodes. -/
structure Member.Sound (m : Member) : Prop where
  node : Outcome.Sound m.node
  items : ∀ items ∈ m.items, ∀ o ∈ items, Outcome.Sound o

namespace Members

variable {ms : Members}

lemma placed_pos (ms : Members) : ms.pos.Placed := by
  simp only [Members.pos]
  split
  · split_ifs with h
    · exact .inl h
    · exact .inr ⟨rfl, rfl⟩
  · exact .inr ⟨rfl, rfl⟩

lemma ofTree_missing (ms : Members) (field : Text) : (ms.missing field).OfTree :=
  Fault.ofTree_reportAt rfl ms.pos

lemma ofTree_badTree (flaw : TreeFlaw) : (Fault.badTree flaw).report.OfTree :=
  Fault.ofTree_report rfl

lemma mem_of_last {field : Text} {m : Member} (h : ms.last? field = some m) : m ∈ ms :=
  List.mem_reverse.mp (List.mem_of_find?_eq_some h)

lemma meets_child (h : ∀ m ∈ ms, m.Sound) (field : Text) : Outcome.Sound (ms.child field) := by
  unfold Members.child
  split
  · rename_i m hm
    exact (h m (mem_of_last hm)).node
  · exact fun n hn => absurd hn (by simp)

lemma meets_require {o : Outcome} (ho : Outcome.Sound o) (field : Text) :
    Meets Node.Sound Diagnostic.OfTree (ms.require field o) := by
  unfold Members.require
  split
  · exact ho
  · exact ms.ofTree_missing field
  · exact ho _ rfl

lemma meets_required (h : ∀ m ∈ ms, m.Sound) (field : Text) :
    Meets Node.Sound Diagnostic.OfTree (ms.required field) :=
  meets_require (meets_child h field) field

lemma meets_list (h : ∀ m ∈ ms, m.Sound) (field : Text) :
    Meets (fun ns => ∀ n ∈ ns, n.Sound) Diagnostic.OfTree (ms.list field) := by
  unfold Members.list
  split
  · rename_i items hitems
    obtain ⟨m, hm, hmi⟩ := Option.bind_eq_some_iff.mp hitems
    exact Meets.mapM fun o ho => meets_require ((h m (mem_of_last hm)).items items hmi o ho) field
  · exact fun n hn => absurd hn List.not_mem_nil

lemma meets_declarators (h : ∀ m ∈ ms, m.Sound) :
    Meets (fun ds => ∀ d ∈ ds, (Node.declarator d).Sound) Diagnostic.OfTree ms.declarators := by
  unfold Members.declarators
  split
  · rename_i items hitems
    obtain ⟨m, hm, hmi⟩ := Option.bind_eq_some_iff.mp hitems
    refine Meets.mapM fun o ho => ?_
    refine Meets.bind ((h m (mem_of_last hm)).items items hmi o ho) fun n hn => ?_
    split
    · exact hn _ rfl
    · exact ofTree_badTree _
  · exact fun n hn => absurd hn List.not_mem_nil

/-- An object of sound fields is a sound node. -/
lemma meets_build (h : ∀ m ∈ ms, m.Sound) (htype : ms.text "type" ≠ []) :
    Meets Node.Sound Diagnostic.OfTree ms.build := by
  have hpos := ms.placed_pos
  have hnone : ∀ c ∈ ([] : List Node), c.Sound := fun c hc => absurd hc List.not_mem_nil
  have single : ∀ {n : Node}, n.Sound → ∀ c ∈ [n], c.Sound := fun hn =>
    List.forall_mem_cons.mpr ⟨hn, hnone⟩
  have option : ∀ {o : Option Node}, (∀ n ∈ o, n.Sound) → ∀ c ∈ o.toList, c.Sound := fun ho c hc =>
    ho c (Option.mem_toList.mp hc)
  simp only [Members.build]
  -- The kinds are tried one by one, and what is left over at the end is of none of them.
  refine .ite (fun _ => ?_) fun hprogram => ?_
  · refine (meets_list h "body").bind fun body hbody => ?_
    exact .of_children trivial hpos hbody
  refine .ite (fun _ => ?_) fun hidentifier => ?_
  · refine .ite (fun _ => ms.ofTree_missing "name") fun hname => ?_
    have hne : ms.text "name" ≠ [] := by simpa using hname
    exact .of_children hne hpos hnone
  refine .ite (fun _ => ?_) fun hliteral => ?_
  · split
    · exact .of_children trivial hpos hnone
    · exact ms.ofTree_missing "raw"
  refine .ite (fun _ => ?_) fun hbinary => ?_
  · refine (meets_required h "left").bind fun left hleft => ?_
    refine (meets_required h "right").bind fun right hright => ?_
    exact .of_children trivial hpos (List.forall_mem_cons.mpr ⟨hleft, single hright⟩)
  refine .ite (fun _ => ?_) fun hassignment => ?_
  · refine (meets_required h "left").bind fun left hleft => ?_
    refine (meets_required h "right").bind fun right hright => ?_
    exact .of_children trivial hpos (List.forall_mem_cons.mpr ⟨hleft, single hright⟩)
  refine .ite (fun _ => ?_) fun hconditional => ?_
  · refine (meets_required h "test").bind fun test htest => ?_
    refine (meets_required h "consequent").bind fun consequent hconsequent => ?_
    refine (meets_required h "alternate").bind fun alternate halternate => ?_
    exact .of_children trivial hpos
      (List.forall_mem_cons.mpr ⟨htest, List.forall_mem_cons.mpr ⟨hconsequent, single halternate⟩⟩)
  refine .ite (fun _ => ?_) fun hcall => ?_
  · refine (meets_required h "callee").bind fun callee hcallee => ?_
    refine (meets_list h "arguments").bind fun arguments harguments => ?_
    exact .of_children trivial hpos (List.forall_mem_cons.mpr ⟨hcallee, harguments⟩)
  refine .ite (fun _ => ?_) fun hmember => ?_
  · refine (meets_required h "object").bind fun object hobject => ?_
    refine (meets_required h "property").bind fun property hproperty => ?_
    exact .of_children trivial hpos (List.forall_mem_cons.mpr ⟨hobject, single hproperty⟩)
  refine .ite (fun _ => ?_) fun hsequence => ?_
  · refine (meets_list h "expressions").bind fun expressions hexpressions => ?_
    exact .of_children trivial hpos hexpressions
  refine .ite (fun _ => ?_) fun harrow => ?_
  · refine (meets_list h "params").bind fun params hparams => ?_
    refine (meets_required h "body").bind fun body hbody => ?_
    exact .of_children trivial hpos (List.forall_mem_append.mpr ⟨hparams, single hbody⟩)
  refine .ite (fun _ => ?_) fun hblock => ?_
  · refine (meets_list h "body").bind fun body hbody => ?_
    exact .of_children trivial hpos hbody
  refine .ite (fun _ => ?_) fun hdeclaration => ?_
  · refine (meets_declarators h).bind fun declarators hdeclarators => ?_
    exact .of_children trivial hpos (List.forall_mem_map.mpr hdeclarators)
  refine .ite (fun _ => ?_) fun hdeclarator => ?_
  · refine (meets_required h "id").bind fun id hid => ?_
    refine (meets_child h "init").bind fun init hinit => ?_
    exact .of_children trivial hpos (List.forall_mem_cons.mpr ⟨hid, option hinit⟩)
  refine .ite (fun _ => ?_) fun hreturn => ?_
  · refine (meets_child h "argument").bind fun argument hargument => ?_
    exact .of_children trivial hpos (option hargument)
  refine .ite (fun _ => ?_) fun hexpression => ?_
  · refine (meets_required h "expression").bind fun inner hinner => ?_
    exact .of_children trivial hpos (single hinner)
  refine .ite (fun _ => ?_) fun hexportDefault => ?_
  · refine (meets_required h "declaration").bind fun inner hinner => ?_
    exact .of_children trivial hpos (single hinner)
  refine .ite (fun _ => ?_) fun hexportNamed => ?_
  · refine (meets_child h "declaration").bind fun inner hinner => ?_
    exact .of_children trivial hpos (option hinner)
  have hother : ms.text "type" ∉ Node.kinds := by
    simp only [Node.kinds, List.mem_cons, List.not_mem_nil, or_false, not_or]
    exact ⟨hprogram, hidentifier, hliteral, hbinary, hconditional, hcall, hmember, hsequence,
      harrow, hblock, hdeclaration, hdeclarator, hreturn, hexpression, hassignment,
      hexportDefault, hexportNamed⟩
  exact .of_children ⟨htype, hother⟩ hpos hnone

lemma meets_node (h : ∀ m ∈ ms, m.Sound) : Meets Node.Sound Diagnostic.OfTree ms.node := by
  refine .ite (fun _ => ofTree_badTree _) fun _ => .ite (fun _ => ofTree_badTree _) fun htype => ?_
  exact meets_build h (by simpa using htype)

end Members

mutual

/-- Every value is sound as a node. -/
theorem sound_outcome : ∀ v : Value, Outcome.Sound (outcome v)
  | .null => fun n hn => absurd hn (by simp)
  | .object members =>
    (Members.meets_node (sound_membersOf members)).map fun _ hn _ hm => Option.mem_some.mp hm ▸ hn
  | .bool _ | .number _ | .string _ | .array _ => Members.ofTree_badTree _

theorem sound_outcomes : ∀ vs : List Value, ∀ o ∈ outcomes vs, Outcome.Sound o
  | [] => fun _ ho => absurd ho List.not_mem_nil
  | v :: rest => List.forall_mem_cons.mpr ⟨sound_outcome v, sound_outcomes rest⟩

theorem sound_itemsOf : ∀ v : Value, ∀ items ∈ itemsOf v, ∀ o ∈ items, Outcome.Sound o
  | .array vs => fun _ hitems => Option.mem_some.mp hitems ▸ sound_outcomes vs
  | .null | .bool _ | .number _ | .string _ | .object _ => fun _ hitems =>
    absurd hitems (by simp [itemsOf])

theorem sound_membersOf : ∀ members : List (Name × Value), ∀ m ∈ membersOf members, m.Sound
  | [] => fun _ hm => absurd hm List.not_mem_nil
  | (_, v) :: rest =>
    List.forall_mem_cons.mpr ⟨⟨sound_outcome v, sound_itemsOf v⟩, sound_membersOf rest⟩

end

lemma meets_root (v : Value) : Meets Node.Sound Diagnostic.OfTree (root v) := by
  cases v with
  | object members =>
    exact .ite (fun _ => Members.meets_node (sound_membersOf members))
      fun _ => Members.ofTree_badTree _
  | _ => exact Members.ofTree_badTree _

/-- Every text is a sound tree, or is reported to be no tree. -/
theorem meets_decodeNode (t : Text) : Meets Node.Sound Diagnostic.OfTree (decodeNode t) := by
  refine .ite (fun _ => Members.ofTree_badTree _) fun _ =>
    .ite (fun _ => Members.ofTree_badTree _) fun _ => ?_
  split
  · exact meets_root _
  · exact Members.ofTree_badTree _

/-- The same for texts that are read as programs. -/
theorem meets_decode (t : Text) :
    Meets (fun p => p.toNode.Sound) Diagnostic.OfTree (decode t) := by
  have hnode := meets_decodeNode t
  unfold decode
  split
  · rename_i e he
    exact hnode.error he
  · rename_i pos body hprogram
    rw [hprogram] at hnode
    exact hnode
  · exact Fault.ofTree_reportAt rfl _

end Tree

end SheetFormula
