import Mathlib.Data.List.Forall2
import SheetFormula.Proofs.Formula.Acceptance
import SheetFormula.Proofs.Formula.Reader

/-!
# Reading a formula back

The term that a tree stands for, said without reference to texts, and the formula of the tree as
the text of that term. No parentheses are written around operands, so the formula is read back as
the term exactly if the term is grouped; otherwise it is read, but as another term.
-/

namespace SheetFormula

namespace Formula

/-- The operator of a sign in a tree, where ranges have none. -/
def Operator.ofSign? (sign : Text) : Option Operator :=
  [.times, .divide, .plus, .minus, .greater, .less, .atLeast, .atMost].find? (·.sign = sign)

lemma Operator.exists_ofSign {sign : Text} (h : sign ∈ operators) :
    ∃ op, ofSign? sign = some op ∧ op.text = " " ++ sign ++ " " := by
  simp only [operators, List.mem_cons, List.not_mem_nil, or_false] at h
  obtain rfl | rfl | rfl | rfl | rfl | rfl | rfl | rfl := h
  · exact ⟨.plus, rfl, rfl⟩
  · exact ⟨.minus, rfl, rfl⟩
  · exact ⟨.times, rfl, rfl⟩
  · exact ⟨.divide, rfl, rfl⟩
  · exact ⟨.greater, rfl, rfl⟩
  · exact ⟨.less, rfl, rfl⟩
  · exact ⟨.atLeast, rfl, rfl⟩
  · exact ⟨.atMost, rfl, rfl⟩

namespace Term

/-- What stands for a node without a formula: an atom that no text reads as. -/
def absent : Term := .atom []

/-- A call of a function with a fixed name. -/
def apply (name : Text) (arguments : List Term) : Term := .call (.atom name) arguments

/-- A value at some keys, the value itself without any. -/
def index (value : Term) (keys : List Term) : Term :=
  if keys.isEmpty then value else apply "INDEX" (value :: keys)

/-- Terms joined to one range, from the left. -/
def ranges : List Term → Term
  | [] => absent
  | x :: rest => rest.foldl (.infixed .range) x

/-- A result where names have values. -/
def letIn (named : List (Text × Term)) (result : Term) : Term :=
  if named.isEmpty then result
  else apply "LET" (named.flatMap (fun b => [.atom b.1, b.2]) ++ [result])

mutual

/-- The value of a node at some keys. A chain of accesses gathers its keys from the outside in:
all of them for one call, or two for each. -/
def access (mode : MemberMode) : Node → List Term → Term
  | .identifier _ name, keys => index (.atom name) keys
  | .literal _ raw, keys => index (.atom raw) keys
  | .binary _ left sign right, keys =>
    match Operator.ofSign? sign with
    | some op => index (.infixed op (access mode left []) (access mode right [])) keys
    | none => absent
  | .conditional _ test consequent alternate, keys =>
    index (apply "IF" [access mode test [], access mode consequent [], access mode alternate []])
      keys
  | .call _ callee arguments, keys =>
    index (.call (access mode callee []) (accessAll mode arguments)) keys
  | .member _ object property _, keys =>
    match mode with
    | .nested => access .nested object (access .nested property [] :: keys)
    | .twoLevel =>
      if keys.isEmpty then access .twoLevel object [access .twoLevel property []]
      else index (access .twoLevel object []) (access .twoLevel property [] :: keys)
  | .sequence _ expressions, keys => index (ranges (accessAll mode expressions)) keys
  | .arrow _ params body, keys =>
    index (apply "LAMBDA" ((params.filterMap Node.name?).map .atom ++ [access mode body []])) keys
  | .block _ body, keys => index (letIn (named mode body) (result mode body)) keys
  | .ret _ (some inner), keys => index (access mode inner []) keys
  | .expression _ inner, keys | .exportDefault _ inner, keys => index (access mode inner []) keys
  | _, _ => absent

def accessAll (mode : MemberMode) : List Node → List Term
  | [] => []
  | n :: rest => access mode n [] :: accessAll mode rest

/-- The names of a declaration with their values. -/
def declared (mode : MemberMode) : List (Declarator Node) → List (Text × Term)
  | ⟨_, .identifier _ name, some init⟩ :: rest =>
    (name, access mode init []) :: declared mode rest
  | _ :: rest => declared mode rest
  | [] => []

/-- The names that a body declares with their values. -/
def named (mode : MemberMode) : List Node → List (Text × Term)
  | .declaration _ _ ds :: rest => declared mode ds ++ named mode rest
  | _ :: rest => named mode rest
  | [] => []

/-- The value that a body returns. -/
def result (mode : MemberMode) : List Node → Term
  | .ret _ (some inner) :: _ => access mode inner []
  | _ :: rest => result mode rest
  | [] => absent

end

/-- The term that a tree stands for. -/
def ofNode (mode : MemberMode) (n : Node) : Term := access mode n []

/-! ### Terms and their texts -/

/-- The term is spelled and has the text. -/
structure Denotes (u : Term) (t : Text) : Prop where
  text : u.text = t
  spelled : u.Spelled

lemma Denotes.atom {t : Text} (h : IsAtom t) : Denotes (.atom t) t := ⟨rfl, h⟩

lemma Denotes.map_text {us : List Term} {ts : List Text} (h : List.Forall₂ Denotes us ts) :
    us.map Term.text = ts := by
  induction h with
  | nil => rfl
  | cons hu _ ih => rw [List.map_cons, hu.text, ih]

lemma Denotes.all_spelled {us : List Term} {ts : List Text} (h : List.Forall₂ Denotes us ts) :
    AllSpelled us := by
  induction h with
  | nil => trivial
  | cons hu _ ih => exact ⟨hu.spelled, ih⟩

lemma Denotes.call {f : Term} {t : Text} {us : List Term} {ts : List Text} (hf : Denotes f t)
    (h : List.Forall₂ Denotes us ts) : Denotes (.call f us) (Formula.call t ts) := by
  refine ⟨?_, hf.spelled, all_spelled h⟩
  rw [Term.text, texts_eq_map, hf.text, map_text h, Formula.call]

lemma Denotes.apply {name : Text} {us : List Term} {ts : List Text} (hname : IsAtom name)
    (h : List.Forall₂ Denotes us ts) : Denotes (Term.apply name us) (Formula.call name ts) :=
  Denotes.call (.atom hname) h

lemma Denotes.infixed {op : Operator} {sign s t : Text} {l r : Term}
    (hsign : op.text = " " ++ sign ++ " ") (hl : Denotes l s) (hr : Denotes r t) :
    Denotes (.infixed op l r) (s ++ " " ++ sign ++ " " ++ t) := by
  refine ⟨?_, hl.spelled, hr.spelled⟩
  simp [Term.text, hsign, hl.text, hr.text]

lemma Denotes.index {u : Term} {t : Text} {keys : List Term} {ks : List Text} (hu : Denotes u t)
    (hkeys : List.Forall₂ Denotes keys ks) :
    Denotes (Term.index u keys) (if ks.isEmpty then t else Formula.call "INDEX" (t :: ks)) := by
  cases hkeys with
  | nil => exact hu
  | cons hk hrest => exact Denotes.apply (by decide) (.cons hu (.cons hk hrest))

lemma Denotes.ranges {us : List Term} {ts : List Text} (h : List.Forall₂ Denotes us ts)
    (hne : us ≠ []) : Denotes (Term.ranges us) (Text.join ":" ts) := by
  -- The range so far is a term like any other, with the text so far.
  have hfold : ∀ (u : Term) (t : Text), Denotes u t →
      ∀ us ts, List.Forall₂ Denotes us ts →
        Denotes (us.foldl (.infixed .range) u) (t ++ Text.eachAfter ":" ts) := by
    intro u t hu us ts h
    induction h generalizing u t with
    | nil => simpa [Text.eachAfter] using hu
    | @cons v s vs ss hv _ ih =>
      have hstep : Denotes (.infixed .range u v) (t ++ (":" ++ s)) := by
        refine ⟨?_, hu.spelled, hv.spelled⟩
        simp [Term.text, Operator.text, hu.text, hv.text]
      simpa [Text.eachAfter] using ih _ _ hstep
  cases h with
  | nil => exact absurd rfl hne
  | cons hu hrest =>
    rw [Text.join_cons]
    exact hfold _ _ hu _ _ hrest

/-- The name and the formula of a binding are those of a named term. -/
def Names (b : Text × Term) (c : Binding) : Prop :=
  b.1 = c.name ∧ IsAtom b.1 ∧ Denotes b.2 c.formula

lemma Denotes.letIn {named : List (Text × Term)} {bs : List Binding} {u : Term} {t : Text}
    (h : List.Forall₂ Names named bs) (hu : Denotes u t) :
    Denotes (Term.letIn named u) (Formula.letIn bs t) := by
  have harguments : List.Forall₂ Denotes (named.flatMap (fun b => [.atom b.1, b.2]) ++ [u])
      (bs.flatMap (fun c => [c.name, c.formula]) ++ [t]) := by
    induction h with
    | nil => exact .cons hu .nil
    | cons hb _ ih =>
      obtain ⟨hname, hatom, hvalue⟩ := hb
      exact .cons (hname ▸ .atom hatom) (.cons hvalue ih)
  have hlet : Denotes (Term.apply "LET" (named.flatMap (fun b => [.atom b.1, b.2]) ++ [u]))
      (Formula.call "LET" (bs.flatMap (fun c => [c.name, c.formula]) ++ [t])) :=
    .apply (by decide) harguments
  cases h with
  | nil => exact hu
  | cons hb hrest =>
    rw [Term.letIn, if_neg (by simp), Formula.letIn_eq_call (List.cons_ne_nil _ _)]
    exact hlet

/-! ### Trees and their terms -/

/-- A node that is no access is one value, at whatever keys. -/
lemma access_eq_index (mode : MemberMode) {n : Node} (hn : ∀ pos o p c, n ≠ .member pos o p c)
    (hvalue : access mode n [] ≠ absent) (keys : List Term) :
    access mode n keys = index (access mode n []) keys := by
  cases n with
  | member pos o p c => exact absurd rfl (hn pos o p c)
  | binary pos left sign right =>
    cases hop : Operator.ofSign? sign with
    | none => simp [access, hop] at hvalue
    | some op => simp [access, hop, index]
  | ret pos argument =>
    cases argument with
    | none => simp [access] at hvalue
    | some inner => simp [access, index]
  | identifier | literal | conditional | call | sequence | arrow | block | expression
  | exportDefault => simp [access, index]
  | _ => simp [access] at hvalue

lemma named_eq_declared (mode : MemberMode) (body : List Node) :
    named mode body = declared mode (declaratorsIn body) := by
  have happend : ∀ ds es, declared mode (ds ++ es) = declared mode ds ++ declared mode es := by
    intro ds es
    induction ds with
    | nil => rfl
    | cons d rest ih =>
      obtain ⟨pos, id, init⟩ := d
      cases id <;> cases init <;> simp [declared, ih]
  induction body with
  | nil => rfl
  | cons n rest ih => cases n <;> simp [named, Node.declarators, ih, happend]

end Term

end Formula

/-- The text of a value at some keys. -/
def Lowered.indexed (x : Lowered) (keys : List Text) : Text :=
  if keys.isEmpty then x.formula else Formula.call "INDEX" (x.path ++ keys)

/-- Whether a name or a literal is an atom of formulas, and a sequence has a component. -/
def Node.Worded : Node → Prop
  | identifier _ name => Formula.IsAtom name
  | literal _ raw => Formula.IsAtom raw
  | sequence _ expressions => expressions ≠ []
  | _ => True

namespace Formula

lemma denotes_access_of_single {mode : MemberMode} {n : Node} {t : Text} {keys : List Term}
    {ks : List Text} (hn : ∀ pos o p c, n ≠ .member pos o p c)
    (hvalue : (Term.access mode n []).Denotes t) (hkeys : List.Forall₂ Term.Denotes keys ks) :
    (Term.access mode n keys).Denotes ((Lowered.single t).indexed ks) := by
  have hpresent : Term.access mode n [] ≠ Term.absent := by
    intro habsent
    have hspelled : Term.absent.Spelled := habsent ▸ hvalue.spelled
    exact hspelled.1 rfl
  rw [Term.access_eq_index mode hn hpresent]
  exact hvalue.index hkeys

lemma denotes_member {mode : MemberMode} {pos : Position} {o p : Node} {computed : Bool}
    {x y : Lowered} {keys : List Term} {ks : List Text}
    (ho : ∀ keys ks, List.Forall₂ Term.Denotes keys ks → (mode = .twoLevel → keys.length ≤ 1) →
      (Term.access mode o keys).Denotes (x.indexed ks))
    (hp : (Term.access mode p []).Denotes y.formula) (hkeys : List.Forall₂ Term.Denotes keys ks)
    (hfew : mode = .twoLevel → keys.length ≤ 1) :
    (Term.access mode (.member pos o p computed) keys).Denotes
      ((Lowered.member mode x y).indexed ks) := by
  cases mode with
  | nested =>
    have hall := ho _ _ (.cons hp hkeys) (by simp)
    cases hkeys with
    | nil => exact hall
    | cons hk hrest => simpa [Term.access, Lowered.indexed, Lowered.member] using hall
  | twoLevel =>
    cases hkeys with
    | nil => exact ho _ _ (.cons hp .nil) (by simp)
    | cons hk hrest =>
      have hobject : (Term.access .twoLevel o []).Denotes x.formula := ho [] [] .nil (by simp)
      have hall := hobject.index (.cons hp (.cons hk hrest))
      simpa [Term.access, Lowered.indexed, Lowered.member] using hall

lemma denotes_parameters {ps : List Node} {names : List Text} (h : parameters ps = .ok names)
    (worded : ∀ p ∈ ps, p.Worded) :
    List.Forall₂ Term.Denotes ((ps.filterMap Node.name?).map .atom) names := by
  rw [parameters_eq_ok] at h
  induction ps generalizing names with
  | nil =>
    obtain rfl : names = [] := by simpa using h
    exact .nil
  | cons p rest ih =>
    obtain ⟨hp, hrest⟩ := List.forall_mem_cons.mp worded
    cases p with
    | identifier pos name =>
      cases names with
      | nil => simp at h
      | cons first others =>
        obtain ⟨rfl, hothers⟩ : name = first ∧ rest.map Node.name? = others.map some := by
          simpa [Node.name?] using h
        exact .cons (.atom hp) (ih hothers hrest)
    | _ => cases names <;> simp [Node.name?] at h

lemma names_declared {mode : MemberMode} {ds : List (Declarator Node)}
    {bs : List (Position × Binding)} (h : bindings mode ds = .ok bs)
    (worded : ∀ d ∈ ds, d.id.Worded)
    (value : ∀ d ∈ ds, ∀ n ∈ d.init, ∀ y, lower mode n = .ok y →
      (Term.access mode n []).Denotes y.formula) :
    List.Forall₂ Term.Names (Term.declared mode ds) (bs.map (·.2)) := by
  induction ds generalizing bs with
  | nil =>
    cases h
    exact .nil
  | cons d rest ih =>
    obtain ⟨b, cs, hb, hcs, rfl⟩ := bindings_cons_eq_ok.mp h
    obtain ⟨hd, hrest⟩ := List.forall_mem_cons.mp worded
    obtain ⟨hvalue, hvalues⟩ := List.forall_mem_cons.mp value
    obtain ⟨hname, init, y, hinit, hy, hformula⟩ := binding_eq_ok.mp hb
    obtain ⟨pos, id, init'⟩ := d
    obtain rfl : init' = some init := hinit
    cases id with
    | identifier p name =>
      have hfirst : Term.Names (name, Term.access mode init []) b :=
        ⟨Option.some.inj hname, hd, hformula ▸ hvalue init rfl y hy⟩
      exact .cons hfirst (ih hcs hrest hvalues)
    | _ => cases hname

lemma denotes_result {mode : MemberMode} {body : List Node} {p : Position} {t : Text}
    (h : returnsIn mode body = [(p, .ok t)])
    (value : ∀ q n, .ret q (some n) ∈ body → ∀ y, lower mode n = .ok y →
      (Term.access mode n []).Denotes y.formula) :
    (Term.result mode body).Denotes t := by
  induction body with
  | nil => cases h
  | cons n rest ih =>
    have hlater : returnsIn mode rest = [(p, .ok t)] → (Term.result mode rest).Denotes t :=
      fun hrest => ih hrest fun q m hm => value q m (List.mem_cons_of_mem n hm)
    cases n with
    | ret pos argument =>
      obtain ⟨⟨-, hreturned⟩, -⟩ :
          (pos = p ∧ returned mode pos argument = .ok t) ∧ returnsIn mode rest = [] := by
        simpa [returnsIn, returnOf] using h
      cases argument with
      | none => cases hreturned
      | some inner =>
        simp only [returned, Result.bind_eq_ok, Result.pure_eq_ok] at hreturned
        obtain ⟨y, hy, rfl⟩ := hreturned
        exact value pos inner List.mem_cons_self y hy
    | _ => exact hlater h

lemma denotes_accessAll {mode : MemberMode} {ns : List Node} {ts : List Text}
    (h : lowerAll mode ns = .ok ts)
    (value : ∀ n ∈ ns, ∀ y, lower mode n = .ok y → (Term.access mode n []).Denotes y.formula) :
    List.Forall₂ Term.Denotes (Term.accessAll mode ns) ts := by
  induction ns generalizing ts with
  | nil =>
    cases h
    exact .nil
  | cons n rest ih =>
    obtain ⟨y, ys, hy, hys, rfl⟩ := lowerAll_cons_eq_ok.mp h
    obtain ⟨hn, hrest⟩ := List.forall_mem_cons.mp value
    exact .cons (hn y hy) (ih hys hrest)

/-- A tree that has a formula stands for a term with that text. -/
theorem denotes_access {mode : MemberMode} {n : Node} {x : Lowered} (h : lower mode n = .ok x)
    (worded : ∀ m : Node, m.Within n → m.Worded) {keys : List Term} {ks : List Text}
    (hkeys : List.Forall₂ Term.Denotes keys ks) (hfew : mode = .twoLevel → keys.length ≤ 1) :
    (Term.access mode n keys).Denotes (x.indexed ks) := by
  induction n using Node.withinInduction generalizing x keys ks with
  | step n ih =>
    -- Of the parts of a node only their own values are needed, but for the object of an access.
    have value : ∀ m : Node, (∃ c ∈ n.children, m.Within c) → ∀ y, lower mode m = .ok y →
        (Term.access mode m []).Denotes y.formula := by
      rintro m ⟨c, hc, hm⟩ y hy
      have hparts : ∀ k : Node, k.Within m → k.Worded := fun k hk =>
        worded k ((hk.trans hm).trans (.child hc))
      exact ih c hc m hm hy hparts .nil (by simp)
    have single : ∀ t, x = .single t → (∀ pos o p c, n ≠ .member pos o p c) →
        (Term.access mode n []).Denotes t → (Term.access mode n keys).Denotes (x.indexed ks) := by
      rintro t rfl hn hvalue
      exact denotes_access_of_single hn hvalue hkeys
    cases n with
    | identifier pos name =>
      cases h
      exact single name rfl (by simp) (.atom (worded _ (.root _)))
    | literal pos raw =>
      cases h
      exact single raw rfl (by simp) (.atom (worded _ (.root _)))
    | binary pos left sign right =>
      rw [lower] at h
      split at h
      · rename_i hknown
        simp only [Result.bind_eq_ok, Result.pure_eq_ok] at h
        obtain ⟨l, hl, r, hr, rfl⟩ := h
        obtain ⟨op, hop, htext⟩ := Operator.exists_ofSign (List.contains_iff_mem.mp hknown)
        have hleft := value left ⟨left, by simp [Node.children], .root left⟩ l hl
        have hright := value right ⟨right, by simp [Node.children], .root right⟩ r hr
        refine single _ rfl (by simp) ?_
        rw [Term.access, hop]
        exact .infixed htext hleft hright
      · cases h
    | conditional pos test consequent alternate =>
      simp only [lower, Result.bind_eq_ok, Result.pure_eq_ok] at h
      obtain ⟨t, ht, c, hc, a, ha, rfl⟩ := h
      have htest := value test ⟨test, by simp [Node.children], .root test⟩ t ht
      have hconsequent :=
        value consequent ⟨consequent, by simp [Node.children], .root consequent⟩ c hc
      have halternate :=
        value alternate ⟨alternate, by simp [Node.children], .root alternate⟩ a ha
      refine single _ rfl (by simp) ?_
      rw [Term.access]
      exact .apply (by decide) (.cons htest (.cons hconsequent (.cons halternate .nil)))
    | call pos callee arguments =>
      simp only [lower, Result.bind_eq_ok, Result.pure_eq_ok] at h
      obtain ⟨f, hf, ts, hts, rfl⟩ := h
      have hcallee := value callee ⟨callee, by simp [Node.children], .root callee⟩ f hf
      have harguments := denotes_accessAll hts fun c hc =>
        value c ⟨c, List.mem_cons_of_mem callee hc, .root c⟩
      refine single _ rfl (by simp) ?_
      rw [Term.access]
      exact .call hcallee harguments
    | member pos object property computed =>
      simp only [lower, Result.bind_eq_ok, Result.pure_eq_ok] at h
      obtain ⟨o, ho, k, hk, rfl⟩ := h
      have hobject : object ∈ (Node.member pos object property computed).children := by
        simp [Node.children]
      have hparts : ∀ m : Node, m.Within object → m.Worded := fun m hm =>
        worded m (hm.trans (.child hobject))
      have hkey := value property ⟨property, by simp [Node.children], .root property⟩ k hk
      exact denotes_member (fun keys ks => ih object hobject object (.root object) ho hparts) hkey
        hkeys hfew
    | sequence pos expressions =>
      simp only [lower, Result.bind_eq_ok, Result.pure_eq_ok] at h
      obtain ⟨ts, hts, rfl⟩ := h
      have hall := denotes_accessAll hts fun c hc => value c ⟨c, hc, .root c⟩
      have hsome : expressions ≠ [] := worded _ (.root _)
      have hne : Term.accessAll mode expressions ≠ [] := by
        cases expressions with
        | nil => exact absurd rfl hsome
        | cons c rest => simp [Term.accessAll]
      refine single _ rfl (by simp) ?_
      rw [Term.access]
      exact .ranges hall hne
    | arrow pos params body =>
      simp only [lower, Result.bind_eq_ok, Result.pure_eq_ok] at h
      obtain ⟨names, hnames, b, hb, rfl⟩ := h
      have hparams := denotes_parameters hnames fun p hp =>
        worded p (.child (List.mem_append_left _ hp))
      have hbody := value body ⟨body, by simp [Node.children], .root body⟩ b hb
      refine single _ rfl (by simp) ?_
      rw [Term.access]
      exact .apply (by decide) (List.rel_append hparams (.cons hbody .nil))
    | block pos body =>
      simp only [lower, Result.map_eq_ok] at h
      obtain ⟨t, ht, rfl⟩ := h
      obtain ⟨-, bs, p, _, t, hbs, -, hreturns, rfl, rfl⟩ := block_eq_ok.mp ht
      have hids : ∀ d ∈ declaratorsIn body, d.id.Worded := by
        intro d hd
        obtain ⟨s, hs, hwithin⟩ := declarator_within hd
        have hid : d.id.Within (.declarator d) := .child List.mem_cons_self
        exact worded d.id ((hid.trans hwithin).trans (.child hs))
      have hnamed := names_declared hbs hids fun d hd m hm => value m (init_within hd hm)
      have hresult := denotes_result hreturns fun q m hm =>
        value m ⟨_, hm, .child (by simp [Node.children])⟩
      refine single _ rfl (by simp) ?_
      rw [Term.access, Term.named_eq_declared]
      exact .letIn hnamed hresult
    | ret pos argument =>
      cases argument with
      | none => cases h
      | some inner =>
        simp only [lower, returned, Result.map_eq_ok, Result.bind_eq_ok, Result.pure_eq_ok] at h
        obtain ⟨_, ⟨y, hy, rfl⟩, rfl⟩ := h
        have hinner := value inner ⟨inner, by simp [Node.children], .root inner⟩ y hy
        refine single _ rfl (by simp) ?_
        rw [Term.access]
        exact hinner
    | expression pos inner | exportDefault pos inner =>
      simp only [lower, Result.bind_eq_ok, Result.pure_eq_ok] at h
      obtain ⟨y, hy, rfl⟩ := h
      have hinner := value inner ⟨inner, by simp [Node.children], .root inner⟩ y hy
      refine single _ rfl (by simp) ?_
      rw [Term.access]
      exact hinner
    | assignment | other | declaration | declarator | exportNamed | program => cases h

end Formula

/-- Every accepted tree of atoms has a formula, which is the text of the term that the tree stands
for. It has exactly one reading, and this is the term itself exactly if the term is grouped. -/
theorem formula_reads_back (mode : MemberMode) {n : Node} (accepted : Accepted n)
    (worded : ∀ m : Node, m.Within n → m.Worded) :
    ∃ text, Formula.ofNode mode (some n) = .ok text ∧
      text = (Formula.Term.ofNode mode n).text ∧
      (∃! u, Formula.Reads 4 text u) ∧
      (Formula.Reads 4 text (Formula.Term.ofNode mode n) ↔
        (Formula.Term.ofNode mode n).Grouped) := by
  obtain ⟨x, hx⟩ := Formula.lower_isOk_iff.mpr accepted
  have hdenotes : (Formula.Term.ofNode mode n).Denotes x.formula :=
    Formula.denotes_access hx worded .nil (by simp)
  refine ⟨x.formula, ?_, hdenotes.text.symm, ?_⟩
  · rw [Formula.ofNode, hx]
    rfl
  · rw [← hdenotes.text]
    exact Formula.reads_text hdenotes.spelled

/-- The product of a difference is written as the difference from a product, and is read as such. -/
theorem product_of_difference_reads_otherwise :
    ∃ text, Formula.ofNode .nested (some (.binary {} (.binary {} (.identifier {} "a") "-"
        (.identifier {} "b")) "*" (.identifier {} "c"))) = .ok text ∧
      (∃! u, Formula.Reads 4 text u) ∧
      ¬ Formula.Reads 4 text (.infixed .times (.infixed .minus (.atom "a") (.atom "b"))
        (.atom "c")) := by
  have accepted : Accepted (.binary {} (.binary {} (.identifier {} "a") "-" (.identifier {} "b"))
      "*" (.identifier {} "c")) :=
    .binary (by decide) (.binary (by decide) (.identifier ..) (.identifier ..)) (.identifier ..)
  have atom : ∀ name, Formula.IsAtom name →
      ∀ m : Node, m.Within (.identifier {} name) → m.Worded := fun name h =>
    Node.forall_within_iff.mpr ⟨h, by simp [Node.children]⟩
  have binary : ∀ left sign right, (∀ m : Node, m.Within left → m.Worded) →
      (∀ m : Node, m.Within right → m.Worded) →
      ∀ m : Node, m.Within (.binary {} left sign right) → m.Worded := fun left sign right hl hr =>
    Node.forall_within_iff.mpr ⟨trivial, by simpa [Node.children] using ⟨hl, hr⟩⟩
  obtain ⟨text, htext, -, hunique, hreads⟩ := formula_reads_back .nested accepted
    (binary _ _ _ (binary _ _ _ (atom "a" (by decide)) (atom "b" (by decide)))
      (atom "c" (by decide)))
  refine ⟨text, htext, hunique, fun h => ?_⟩
  have hlevel : Formula.Operator.minus.level ≤ Formula.Operator.times.level := (hreads.mp h).1
  exact absurd hlevel (by decide)

end SheetFormula
