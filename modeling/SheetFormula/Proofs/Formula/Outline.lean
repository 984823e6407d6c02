import SheetFormula.Proofs.Formula.Unit

/-!
# Outlines of formulas

A formula whose calls are told apart: those that stand for a property access, and those of a
function, which may have the same name. In the outline of a tree an access takes one key, or two
where its object is an access itself. Merging an outline puts every access that is the object of
another one into that one, so that each chain of accesses becomes a single call.
-/

namespace SheetFormula.Formula

/-- A formula in which the calls of property accesses are marked. -/
inductive Outline where
  | atom (t : Text)
  | call (callee : Outline) (arguments : List Outline)
  /-- Parts with a separator between them. A single part is written alone. -/
  | joined (separator : Text) (parts : List Outline)
  /-- The `INDEX` call of a property access. -/
  | access (object : Outline) (keys : List Outline)
deriving Repr

namespace Outline

mutual

def text : Outline → Text
  | atom t => t
  | call f xs => Formula.call f.text (texts xs)
  | joined separator xs => Text.join separator (texts xs)
  | access object keys => Formula.call "INDEX" (object.text :: texts keys)

def texts : List Outline → List Text
  | [] => []
  | x :: rest => x.text :: texts rest

end

/-- A value at some more keys: an access takes them into its own call. -/
def atKeys : Outline → List Outline → Outline
  | access object first, keys => access object (first ++ keys)
  | x, keys => access x keys

mutual

/-- The outline in which no access is the object of another one. -/
def merged : Outline → Outline
  | atom t => atom t
  | call f xs => call f.merged (mergedAll xs)
  | joined separator xs => joined separator (mergedAll xs)
  | access object keys => object.merged.atKeys (mergedAll keys)

def mergedAll : List Outline → List Outline
  | [] => []
  | x :: rest => x.merged :: mergedAll rest

end

/-- What a node writes that only passes on the formula of another. -/
def passed (x : Outline) : Outline := joined [] [x]

/-- A result where names have values. -/
def letIn (named : List (Text × Outline)) (result : Outline) : Outline :=
  if named.isEmpty then passed result
  else call (atom "LET") (named.flatMap (fun b => [atom b.1, b.2]) ++ [result])

mutual

/-- The outline of a tree, with one or two keys to an access. -/
def ofNode : Node → Outline
  | .identifier _ name => atom name
  | .literal _ raw => atom raw
  | .binary _ left sign right => joined (" " ++ sign ++ " ") [ofNode left, ofNode right]
  | .conditional _ test consequent alternate =>
    call (atom "IF") [ofNode test, ofNode consequent, ofNode alternate]
  | .call _ callee arguments => call (ofNode callee) (ofNodes arguments)
  | .member _ (.member _ object first _) second _ =>
    access (ofNode object) [ofNode first, ofNode second]
  | .member _ object key _ => access (ofNode object) [ofNode key]
  | .sequence _ expressions => joined ":" (ofNodes expressions)
  | .arrow _ params body =>
    call (atom "LAMBDA") ((params.filterMap Node.name?).map atom ++ [ofNode body])
  | .block _ body => letIn (named body) (result body)
  | .ret _ (some inner) | .expression _ inner | .exportDefault _ inner => passed (ofNode inner)
  | _ => atom []

def ofNodes : List Node → List Outline
  | [] => []
  | n :: rest => ofNode n :: ofNodes rest

/-- The names of a declaration with the outlines of their values. -/
def declared : List (Declarator Node) → List (Text × Outline)
  | ⟨_, .identifier _ name, some init⟩ :: rest => (name, ofNode init) :: declared rest
  | _ :: rest => declared rest
  | [] => []

/-- The names that a body declares with the outlines of their values. -/
def named : List Node → List (Text × Outline)
  | .declaration _ _ ds :: rest => declared ds ++ named rest
  | _ :: rest => named rest
  | [] => []

/-- The outline of what a body returns. -/
def result : List Node → Outline
  | .ret _ (some inner) :: _ => ofNode inner
  | _ :: rest => result rest
  | [] => atom []

end

/-! ### Outlines as they are written -/

@[simp] lemma texts_eq_map (xs : List Outline) : texts xs = xs.map text := by
  induction xs with
  | nil => rfl
  | cons x rest ih => rw [texts, ih, List.map_cons]

@[simp] lemma mergedAll_eq_map (xs : List Outline) : mergedAll xs = xs.map merged := by
  induction xs with
  | nil => rfl
  | cons x rest ih => rw [mergedAll, ih, List.map_cons]

@[simp] lemma ofNodes_eq_map (ns : List Node) : ofNodes ns = ns.map ofNode := by
  induction ns with
  | nil => rfl
  | cons n rest ih => rw [ofNodes, ih, List.map_cons]

/-- An outline as a member mode writes it: nested mode merges it first. -/
def written : MemberMode → Outline → Text
  | .nested => text ∘ merged
  | .twoLevel => text

/-- A named outline as a member mode writes it. -/
def bindingOf (mode : MemberMode) (b : Text × Outline) : Binding := ⟨b.1, b.2.written mode⟩

variable {mode : MemberMode}

@[simp] lemma written_atom (t : Text) : (atom t).written mode = t := by
  cases mode <;> rfl

@[simp] lemma written_call (f : Outline) (xs : List Outline) :
    (call f xs).written mode = Formula.call (f.written mode) (xs.map (written mode)) := by
  cases mode with
  | nested => simp [written, merged, text]
  | twoLevel => simp [written, text]

@[simp] lemma written_joined (separator : Text) (xs : List Outline) :
    (joined separator xs).written mode = Text.join separator (xs.map (written mode)) := by
  cases mode with
  | nested => simp [written, merged, text]
  | twoLevel => simp [written, text]

@[simp] lemma written_passed (x : Outline) : (passed x).written mode = x.written mode := by
  simp [passed, Text.join]

/-- Names around an outline are written as names around a formula. -/
lemma written_letIn (named : List (Text × Outline)) (result : Outline) :
    (letIn named result).written mode =
      Formula.letIn (named.map (bindingOf mode)) (result.written mode) := by
  cases named with
  | nil => simp [letIn, Formula.letIn]
  | cons b rest =>
    have harguments : (b :: rest).flatMap (fun b => [(atom b.1).written mode, b.2.written mode]) =
        ((b :: rest).map (bindingOf mode)).flatMap (fun c => [c.name, c.formula]) := by
      simp [List.flatMap_map, bindingOf]
    rw [letIn, if_neg (by simp), Formula.letIn_eq_call (by simp), written_call, ← harguments]
    simp [List.map_flatMap]

/-! ### Chains of accesses -/

/-- What an outline gives to the call that it is put into. -/
def spread : Outline → List Outline
  | access object keys => object :: keys
  | x => [x]

lemma spread_atKeys (x : Outline) (keys : List Outline) :
    (x.atKeys keys).spread = x.spread ++ keys := by
  cases x <;> rfl

lemma text_atKeys (x : Outline) (keys : List Outline) :
    (x.atKeys keys).text = Formula.call "INDEX" ((x.spread ++ keys).map text) := by
  cases x <;> simp [atKeys, spread, text]

lemma atKeys_atKeys (x : Outline) (first second : List Outline) :
    (x.atKeys first).atKeys second = x.atKeys (first ++ second) := by
  cases x <;> simp [atKeys]

/-- However many keys a call of the outline takes, merging gathers them one by one. -/
lemma merged_member (pos : Position) (object key : Node) (computed : Bool) :
    (ofNode (.member pos object key computed)).merged =
      (ofNode object).merged.atKeys [(ofNode key).merged] := by
  induction object using Node.childInduction generalizing pos key computed with
  | step object ih =>
    cases object with
    | member pos' inner first computed' =>
      have hinner := ih inner (by simp [Node.children]) pos' first computed'
      rw [hinner, atKeys_atKeys]
      simp [ofNode, merged]
    | _ => simp [ofNode, merged]

/-- What a tree gives to the access that it is the object of: in nested mode what its own call
takes, in two-level mode the object and the key of the tree at most. -/
def given : MemberMode → Node → List Text
  | .nested, n => (ofNode n).merged.spread.map text
  | .twoLevel, .member _ object key _ => [(ofNode object).text, (ofNode key).text]
  | .twoLevel, n => [(ofNode n).text]

/-- What a tree with a formula is lowered to. -/
def lowered (mode : MemberMode) (n : Node) : Lowered := ⟨(ofNode n).written mode, given mode n⟩

lemma spread_merged_of_not_member {n : Node} (hn : ∀ pos o k c, n ≠ .member pos o k c) :
    (ofNode n).merged.spread = [(ofNode n).merged] := by
  cases n with
  | member pos o k c => exact absurd rfl (hn pos o k c)
  | block pos body =>
    rw [ofNode, letIn]
    split <;> rfl
  | ret pos argument => cases argument <;> rfl
  | _ => rfl

lemma lowered_of_not_member {n : Node} (hn : ∀ pos o k c, n ≠ .member pos o k c) :
    lowered mode n = .single ((ofNode n).written mode) := by
  cases mode with
  | nested => simp [lowered, given, spread_merged_of_not_member hn, Lowered.single, written]
  | twoLevel =>
    cases n with
    | member pos o k c => exact absurd rfl (hn pos o k c)
    | _ => rfl

lemma lowered_member (pos : Position) (object key : Node) (computed : Bool) :
    lowered mode (.member pos object key computed) =
      .member mode (lowered mode object) (lowered mode key) := by
  cases mode with
  | nested =>
    simp [lowered, given, Lowered.member, written, merged_member, text_atKeys, spread_atKeys]
  | twoLevel =>
    cases object <;> rfl

/-! ### Formulas and their outlines -/

lemma written_ofNodes {ns : List Node} {ts : List Text} (h : lowerAll mode ns = .ok ts)
    (value : ∀ n ∈ ns, ∀ y, lower mode n = .ok y → y.formula = (ofNode n).written mode) :
    ts = (ofNodes ns).map (written mode) := by
  induction ns generalizing ts with
  | nil =>
    cases h
    rfl
  | cons n rest ih =>
    obtain ⟨y, ys, hy, hys, rfl⟩ := lowerAll_cons_eq_ok.mp h
    obtain ⟨hn, hrest⟩ := List.forall_mem_cons.mp value
    rw [ofNodes, List.map_cons, hn y hy, ih hys hrest]

lemma written_declared {ds : List (Declarator Node)} {bs : List Binding}
    (h : List.Forall₂ (Binds mode) ds bs)
    (value : ∀ d ∈ ds, ∀ n ∈ d.init, ∀ y, lower mode n = .ok y →
      y.formula = (ofNode n).written mode) :
    bs = (declared ds).map (bindingOf mode) := by
  induction h with
  | nil => rfl
  | @cons d b _ _ hdb _ ih =>
    obtain ⟨hd, hrest⟩ := List.forall_mem_cons.mp value
    obtain ⟨hname, init, hinit, hformula⟩ := hdb
    obtain ⟨y, hy, hyb⟩ := ofNode_eq_ok.mp hformula
    have hvalue := hd init hinit y hy
    obtain ⟨pos, id, init'⟩ := d
    obtain rfl : init' = some init := hinit
    cases id with
    | identifier p name =>
      have hb : b = bindingOf mode (name, ofNode init) := by
        obtain ⟨bname, bformula⟩ := b
        simp only [bindingOf, Binding.mk.injEq]
        exact ⟨(Option.some.inj hname).symm, hyb.symm.trans hvalue⟩
      rw [declared, List.map_cons, ← hb, ← ih hrest]
    | _ => cases hname

lemma named_eq_declared (body : List Node) : named body = declared (declaratorsIn body) := by
  have happend : ∀ ds es, declared (ds ++ es) = declared ds ++ declared es := by
    intro ds es
    induction ds with
    | nil => rfl
    | cons d rest ih =>
      obtain ⟨pos, id, init⟩ := d
      cases id <;> cases init <;> simp [declared, ih]
  induction body with
  | nil => rfl
  | cons n rest ih => cases n <;> simp [named, Node.declarators, ih, happend]

lemma written_result {body : List Node} {p : Position} {t : Text}
    (h : returnsIn mode body = [(p, .ok t)])
    (value : ∀ q n, .ret q (some n) ∈ body → ∀ y, lower mode n = .ok y →
      y.formula = (ofNode n).written mode) : t = (result body).written mode := by
  induction body with
  | nil => cases h
  | cons n rest ih =>
    have hlater : returnsIn mode rest = [(p, .ok t)] → t = (result rest).written mode :=
      fun hrest => ih hrest fun q m hm => value q m (List.mem_cons_of_mem n hm)
    cases n with
    | ret pos argument =>
      obtain ⟨⟨-, hreturned⟩, -⟩ :
          (pos = p ∧ returned mode pos argument = .ok t) ∧ returnsIn mode rest = [] := by
        simpa [returnsIn, returnOf] using h
      obtain ⟨inner, rfl, hinner⟩ := returned_eq_ok.mp hreturned
      obtain ⟨y, hy, rfl⟩ := ofNode_eq_ok.mp hinner
      exact value pos inner List.mem_cons_self y hy
    | _ => exact hlater h

/-- A tree that has a formula is lowered to what its outline says. -/
theorem eq_lowered {n : Node} {x : Lowered} (h : lower mode n = .ok x) : x = lowered mode n := by
  induction n using Node.withinInduction generalizing x with
  | step n ih =>
    have value : ∀ m : Node, (∃ c ∈ n.children, m.Within c) → ∀ y, lower mode m = .ok y →
        y.formula = (ofNode m).written mode := by
      rintro m ⟨c, hc, hm⟩ y hy
      rw [ih c hc m hm hy]
      rfl
    have single : ∀ t, x = .single t → (∀ pos o k c, n ≠ .member pos o k c) →
        t = (ofNode n).written mode → x = lowered mode n := by
      rintro t rfl hn rfl
      exact (lowered_of_not_member hn).symm
    cases n with
    | identifier pos name =>
      cases h
      exact single name rfl (by simp) (by simp [ofNode])
    | literal pos raw =>
      cases h
      exact single raw rfl (by simp) (by simp [ofNode])
    | binary pos left sign right =>
      rw [lower] at h
      split at h
      · simp only [Result.bind_eq_ok, Result.pure_eq_ok] at h
        obtain ⟨l, hl, r, hr, rfl⟩ := h
        have hleft := value left ⟨left, by simp [Node.children], .root left⟩ l hl
        have hright := value right ⟨right, by simp [Node.children], .root right⟩ r hr
        refine single _ rfl (by simp) ?_
        simp [ofNode, hleft, hright, Text.join_cons, Text.eachAfter]
      · cases h
    | conditional pos test consequent alternate =>
      simp only [lower, Result.bind_eq_ok, Result.pure_eq_ok] at h
      obtain ⟨t, ht, c, hc, a, ha, rfl⟩ := h
      have htest := value test ⟨test, by simp [Node.children], .root test⟩ t ht
      have hconsequent :=
        value consequent ⟨consequent, by simp [Node.children], .root consequent⟩ c hc
      have halternate :=
        value alternate ⟨alternate, by simp [Node.children], .root alternate⟩ a ha
      refine single _ rfl (by simp) ?_
      simp [ofNode, htest, hconsequent, halternate]
    | call pos callee arguments =>
      simp only [lower, Result.bind_eq_ok, Result.pure_eq_ok] at h
      obtain ⟨f, hf, ts, hts, rfl⟩ := h
      have hcallee := value callee ⟨callee, by simp [Node.children], .root callee⟩ f hf
      have harguments := written_ofNodes hts fun c hc =>
        value c ⟨c, List.mem_cons_of_mem callee hc, .root c⟩
      refine single _ rfl (by simp) ?_
      rw [ofNode, written_call, hcallee, harguments]
    | member pos object key computed =>
      simp only [lower, Result.bind_eq_ok, Result.pure_eq_ok] at h
      obtain ⟨o, ho, k, hk, rfl⟩ := h
      have hobject := ih object (by simp [Node.children]) object (.root object) ho
      have hkey := ih key (by simp [Node.children]) key (.root key) hk
      rw [lowered_member, hobject, hkey]
    | sequence pos expressions =>
      simp only [lower, Result.bind_eq_ok, Result.pure_eq_ok] at h
      obtain ⟨ts, hts, rfl⟩ := h
      have hparts := written_ofNodes hts fun c hc => value c ⟨c, hc, .root c⟩
      refine single _ rfl (by simp) ?_
      rw [ofNode, written_joined, hparts]
    | arrow pos params body =>
      simp only [lower, Result.bind_eq_ok, Result.pure_eq_ok] at h
      obtain ⟨names, hnames, b, hb, rfl⟩ := h
      have hparams : params.filterMap Node.name? = names :=
        calc
          _ = (params.map Node.name?).filterMap id := by simp [List.filterMap_map]
          _ = (names.map some).filterMap id := by rw [parameters_eq_ok.mp hnames]
          _ = names := by simp
      have hbody := value body ⟨body, by simp [Node.children], .root body⟩ b hb
      refine single _ rfl (by simp) ?_
      simp [ofNode, hparams, hbody, Function.comp_def]
    | block pos body =>
      simp only [lower, Result.map_eq_ok] at h
      obtain ⟨t, ht, rfl⟩ := h
      obtain ⟨-, bs, p, _, t, hbs, -, hreturns, rfl, rfl⟩ := block_eq_ok.mp ht
      have hnamed := written_declared (exists_bindings_iff.mp ⟨bs, hbs, rfl⟩) fun d hd m hm =>
        value m (init_within hd hm)
      have hresult := written_result hreturns fun q m hm =>
        value m ⟨_, hm, .child (by simp [Node.children])⟩
      refine single _ rfl (by simp) ?_
      rw [ofNode, written_letIn, named_eq_declared, hnamed, hresult]
    | ret pos argument =>
      simp only [lower, Result.map_eq_ok] at h
      obtain ⟨t, ht, rfl⟩ := h
      obtain ⟨inner, rfl, hinner⟩ := returned_eq_ok.mp ht
      obtain ⟨y, hy, rfl⟩ := ofNode_eq_ok.mp hinner
      have hvalue := value inner ⟨inner, by simp [Node.children], .root inner⟩ y hy
      refine single _ rfl (by simp) ?_
      rw [ofNode, written_passed, hvalue]
    | expression pos inner | exportDefault pos inner =>
      simp only [lower, Result.bind_eq_ok, Result.pure_eq_ok] at h
      obtain ⟨y, hy, rfl⟩ := h
      have hvalue := value inner ⟨inner, by simp [Node.children], .root inner⟩ y hy
      refine single _ rfl (by simp) ?_
      rw [ofNode, written_passed, hvalue]
    | assignment | other | declaration | declarator | exportNamed | program => cases h

lemma eq_written {n : Node} {t : Text} (h : Formula.ofNode mode (some n) = .ok t) :
    t = (ofNode n).written mode := by
  obtain ⟨x, hx, rfl⟩ := ofNode_eq_ok.mp h
  rw [eq_lowered hx]
  rfl

lemma eq_map_bindingOf {ds : List (Declarator Node)} {bs : List Binding}
    (h : List.Forall₂ (Binds mode) ds bs) : bs = (declared ds).map (bindingOf mode) :=
  written_declared h fun _ _ _ _ _ hy => eq_written (ofNode_eq_ok.mpr ⟨_, hy, rfl⟩)

end Outline

/-! ### Modules -/

/-- The outline of a unit. -/
structure UnitOutline where
  bindings : List (Text × Outline)
  main : Outline
  exports : List (Text × Outline)
deriving Repr

namespace UnitOutline

/-- The outline of a module: each named export has the module bindings around it. -/
def ofProgram (p : Program) : UnitOutline :=
  let bindings := Outline.declared (declaratorsIn p.body)
  { bindings
    main := ((defaultsIn p.body).head?.map Outline.ofNode).getD (.atom [])
    exports := (Outline.declared (exportedIn p.body)).map fun b => (b.1, .letIn bindings b.2) }

def merged (o : UnitOutline) : UnitOutline :=
  { bindings := o.bindings.map fun b => (b.1, b.2.merged)
    main := o.main.merged
    exports := o.exports.map fun b => (b.1, b.2.merged) }

def text (o : UnitOutline) : CompiledUnit :=
  { bindings := o.bindings.map fun b => ⟨b.1, b.2.text⟩
    main := o.main.text
    exports := o.exports.map fun b => ⟨b.1, b.2.text⟩ }

def written : MemberMode → UnitOutline → CompiledUnit
  | .nested, o => o.merged.text
  | .twoLevel, o => o.text

lemma written_eq (mode : MemberMode) (o : UnitOutline) :
    o.written mode = ⟨o.bindings.map (Outline.bindingOf mode), o.main.written mode,
      o.exports.map (Outline.bindingOf mode)⟩ := by
  cases mode with
  | nested =>
    simp [written, merged, text, Outline.written, Outline.bindingOf, Function.comp_def]
  | twoLevel => rfl

/-- A module compiles to what its outline says. -/
theorem eq_written {mode : MemberMode} {p : Program} {u : CompiledUnit}
    (h : compile mode p = .ok u) : u = (ofProgram p).written mode := by
  obtain ⟨-, n, hdefault, hbindings, -, hmain, bs, hexports, -, hunder⟩ := compile_eq_ok_iff.mp h
  have hbound : u.bindings = (ofProgram p).bindings.map (Outline.bindingOf mode) :=
    Outline.eq_map_bindingOf hbindings
  have hvalue : u.main = (ofProgram p).main.written mode := by
    rw [ofProgram, hdefault]
    exact Outline.eq_written hmain
  have hexported : u.exports = (ofProgram p).exports.map (Outline.bindingOf mode) := by
    rw [hunder, Outline.eq_map_bindingOf hexports, hbound, ofProgram]
    simp [under, Outline.bindingOf, Outline.written_letIn, Function.comp_def]
  rw [written_eq, ← hbound, ← hvalue, ← hexported]

end UnitOutline

end SheetFormula.Formula
