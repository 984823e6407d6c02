import SheetFormula.Proofs.Json.Number
import SheetFormula.Proofs.Json.RoundTrip
import SheetFormula.Proofs.Result
import SheetFormula.Proofs.Tree.Parts
import SheetFormula.Tree.Decode

/-!
# Trees as JSON

The canonical JSON of a tree: an object for each node, with its kind, its place and its own fields.
A tree is read back from it as it was. The fields that all nodes share and the fields of one kind
never have a name in common, so each field is found where it was put.
-/

namespace SheetFormula

namespace Tree

open Json (Name Value)

/-! ### Canonical values -/

def integer (n : Int) : Value := .number (Text.ofInt n)

def fields (fs : List (Text × Value)) : Value := .object (fs.map fun f => (.text f.1, f.2))

/-- Line and column, if they are known; columns are stored from 0. -/
def location (p : Position) : List (Text × Value) :=
  if 0 < p.line then
    [("loc", fields [("start", fields
      [("line", integer p.line.toInt), ("column", integer (p.column.toInt - 1))])])]
  else []

/-- The fields that every node has. -/
def header (n : Node) : List (Text × Value) :=
  ("type", .string n.kind) :: ("start", integer n.pos.start.toInt) ::
    ("end", integer n.pos.stop.toInt) :: location n.pos

/-- The object of a node with its own fields. -/
def wrap (n : Node) (own : List (Text × Value)) : Value := fields (header n ++ own)

mutual

/-- The fields of a node besides those that every node has. -/
def own : Node → List (Text × Value)
  | .program _ body | .block _ body => [("body", .array (ownAll body))]
  | .identifier _ name => [("name", .string name)]
  | .literal _ raw => [("raw", .string raw)]
  | .binary _ left operator right | .assignment _ left operator right =>
    [("left", wrap left (own left)), ("operator", .string operator),
      ("right", wrap right (own right))]
  | .conditional _ test consequent alternate =>
    [("test", wrap test (own test)), ("consequent", wrap consequent (own consequent)),
      ("alternate", wrap alternate (own alternate))]
  | .call _ callee arguments =>
    [("callee", wrap callee (own callee)), ("arguments", .array (ownAll arguments))]
  | .member _ object property computed =>
    [("object", wrap object (own object)), ("property", wrap property (own property)),
      ("computed", .bool computed)]
  | .sequence _ expressions => [("expressions", .array (ownAll expressions))]
  | .arrow _ params body => [("params", .array (ownAll params)), ("body", wrap body (own body))]
  | .declaration _ keyword declarators =>
    [("kind", .string keyword), ("declarations", .array (ownDeclarators declarators))]
  | .declarator d => ownDeclarator d
  | .ret _ argument => [("argument", ownOption argument)]
  | .expression _ inner => [("expression", wrap inner (own inner))]
  | .exportDefault _ inner => [("declaration", wrap inner (own inner))]
  | .exportNamed _ inner => [("declaration", ownOption inner)]
  | .other _ _ => []

def ownAll : List Node → List Value
  | [] => []
  | n :: rest => wrap n (own n) :: ownAll rest

def ownOption : Option Node → Value
  | none => .null
  | some n => wrap n (own n)

def ownDeclarator : Declarator Node → List (Text × Value)
  | ⟨_, id, init⟩ => [("id", wrap id (own id)), ("init", ownOption init)]

def ownDeclarators : List (Declarator Node) → List Value
  | [] => []
  | d :: rest => wrap (.declarator d) (ownDeclarator d) :: ownDeclarators rest

end

/-- The canonical value of a tree. -/
def encode (n : Node) : Value := wrap n (own n)

lemma ownAll_eq_map (ns : List Node) : ownAll ns = ns.map encode := by
  induction ns with
  | nil => rfl
  | cons n rest ih => rw [ownAll, ih, List.map_cons, encode]

lemma ownDeclarators_eq_map (ds : List (Declarator Node)) :
    ownDeclarators ds = ds.map fun d => encode (.declarator d) := by
  induction ds with
  | nil => rfl
  | cons d rest ih => rw [ownDeclarators, ih, List.map_cons, encode, own]

end Tree

/-- Whether a position can be written: columns are known with their lines only, and the column
before the first one has a number. -/
structure Position.Writable (p : Position) : Prop where
  line : 0 ≤ p.line
  column : p.line = 0 → p.column = 0
  before : 0 < p.line → -2 ^ 63 ≤ p.column.toInt - 1

namespace Tree

open Json (Name Value)

/-! ### Fields are found where they were put -/

def membersFrom (fs : List (Text × Value)) : Members :=
  fs.map fun f => ⟨.text f.1, f.2, outcome f.2, itemsOf f.2⟩

lemma membersOf_fields (fs : List (Text × Value)) :
    membersOf (fs.map fun f => (.text f.1, f.2)) = membersFrom fs := by
  induction fs with
  | nil => rfl
  | cons f rest ih => rw [List.map_cons, membersOf, ih, membersFrom, membersFrom, List.map_cons]

lemma outcome_fields (fs : List (Text × Value)) :
    outcome (fields fs) = (Members.node (membersFrom fs)).map some := by
  rw [fields, outcome, membersOf_fields]

/-- The names of fields that every node has. -/
def headerNames : List Text := ["type", "start", "end", "loc"]

/-- The names of fields that nodes have of their own. -/
def ownNames : List Text :=
  ["name", "raw", "left", "operator", "right", "test", "consequent", "alternate", "callee",
   "arguments", "object", "property", "computed", "expressions", "params", "body", "kind",
   "declarations", "id", "init", "argument", "expression", "declaration"]

lemma lower_headerNames : ∀ f ∈ headerNames, Text.lower f = f := by decide

lemma lower_ownNames : ∀ f ∈ ownNames, Text.lower f = f := by decide

lemma not_mem_headerNames : ∀ f ∈ ownNames, f ∉ headerNames := by decide

lemma mem_headerNames {n : Node} {f : Text × Value} (hf : f ∈ header n) : f.1 ∈ headerNames := by
  have hall : ∀ t ∈ (header n).map Prod.fst, t ∈ headerNames := by
    by_cases h : 0 < n.pos.line
    · simp only [header, location, if_pos h, List.map_cons, List.map_nil]
      decide
    · simp only [header, location, if_neg h, List.map_cons, List.map_nil]
      decide
  exact hall f.1 (List.mem_map_of_mem hf)

lemma mem_ownNames {n : Node} {f : Text × Value} (hf : f ∈ own n) : f.1 ∈ ownNames := by
  have hall : ∀ t ∈ (own n).map Prod.fst, t ∈ ownNames := by
    cases n with
    | declarator d =>
      obtain ⟨pos, id, init⟩ := d
      simp only [own, ownDeclarator, List.map_cons, List.map_nil]
      decide
    | _ =>
      simp only [own, List.map_cons, List.map_nil]
      decide
  exact hall f.1 (List.mem_map_of_mem hf)

variable {n : Node}

lemma field_header {g : Text × Value} (hg : g ∈ header n) {v : Value} {o : Outcome}
    {items : Option (List Outcome)} : (Member.mk (.text g.1) v o items).field = g.1 :=
  lower_headerNames _ (mem_headerNames hg)

lemma field_own {g : Text × Value} (hg : g ∈ own n) {v : Value} {o : Outcome}
    {items : Option (List Outcome)} : (Member.mk (.text g.1) v o items).field = g.1 :=
  lower_ownNames _ (mem_ownNames hg)

/-- A field of its own is not looked for among the fields that every node has. -/
lemma filter_header {f : Text} (hf : f ∈ ownNames) :
    (membersFrom (header n)).filter (·.field = f) = [] := by
  rw [List.filter_eq_nil_iff]
  intro m hm hfield
  obtain ⟨g, hg, rfl⟩ := List.mem_map.mp hm
  rw [field_header hg, decide_eq_true_eq] at hfield
  exact not_mem_headerNames f hf (hfield ▸ mem_headerNames hg)

/-- A field that every node has is not among its own fields. -/
lemma filter_own {f : Text} (hf : f ∈ headerNames) :
    (membersFrom (own n)).filter (·.field = f) = [] := by
  rw [List.filter_eq_nil_iff]
  intro m hm hfield
  obtain ⟨g, hg, rfl⟩ := List.mem_map.mp hm
  rw [field_own hg, decide_eq_true_eq] at hfield
  exact not_mem_headerNames g.1 (mem_ownNames hg) (hfield ▸ hf)

lemma last_eq_getLast (ms : Members) (f : Text) :
    ms.last? f = (ms.filter (·.field = f)).getLast? := by
  rw [Members.last?, ← List.head?_filter, List.filter_reverse, List.head?_reverse]

lemma membersFrom_append (fs gs : List (Text × Value)) :
    membersFrom (fs ++ gs) = membersFrom fs ++ membersFrom gs := List.map_append

/-- The object of a node, with what its fields are. -/
def membersOfNode (n : Node) : Members := membersFrom (header n ++ own n)

lemma last_own {f : Text} (hf : f ∈ ownNames) :
    (membersOfNode n).last? f = Members.last? (membersFrom (own n)) f := by
  rw [last_eq_getLast, last_eq_getLast, membersOfNode, membersFrom_append, List.filter_append,
    filter_header hf, List.nil_append]

lemma last_header {f : Text} (hf : f ∈ headerNames) :
    (membersOfNode n).last? f = Members.last? (membersFrom (header n)) f := by
  rw [last_eq_getLast, last_eq_getLast, membersOfNode, membersFrom_append, List.filter_append,
    filter_own hf, List.append_nil]

lemma values_own {f : Text} (hf : f ∈ ownNames) :
    (membersOfNode n).values f = Members.values (membersFrom (own n)) f := by
  rw [Members.values, Members.values, membersOfNode, membersFrom_append, List.filter_append,
    filter_header hf, List.nil_append]

lemma values_header {f : Text} (hf : f ∈ headerNames) :
    (membersOfNode n).values f = Members.values (membersFrom (header n)) f := by
  rw [Members.values, Members.values, membersOfNode, membersFrom_append, List.filter_append,
    filter_own hf, List.append_nil]

lemma text_type : (membersOfNode n).text "type" = n.kind := by
  rw [Members.text, last_header (by decide)]
  by_cases h : 0 < n.pos.line
  · rw [header, location, if_pos h]
    rfl
  · rw [header, location, if_neg h]
    rfl

lemma int_header {f : Text} {i : Int64} (hf : f ∈ headerNames)
    (h : Members.values (membersFrom (header n)) f = [integer i.toInt]) :
    (membersOfNode n).int f = i := by
  rw [Members.int, values_header hf, h]
  simp [integer, int?, Json.int64_ofInt]

lemma values_position :
    Members.values (membersFrom (header n)) "start" = [integer n.pos.start.toInt] ∧
      Members.values (membersFrom (header n)) "end" = [integer n.pos.stop.toInt] ∧
      Members.values (membersFrom (header n)) "loc" = (location n.pos).map Prod.snd := by
  by_cases h : 0 < n.pos.line
  · rw [header, location, if_pos h]
    exact ⟨rfl, rfl, rfl⟩
  · rw [header, location, if_neg h]
    exact ⟨rfl, rfl, rfl⟩

lemma int_integer {before : Int64} (i : Int64) : int? before (integer i.toInt) = some i :=
  Json.int64_ofInt i

lemma place_fields (i j : Int64) :
    place? (0, 0) (fields [("line", integer i.toInt), ("column", integer j.toInt)]) =
      some (i, j) := by
  have hline : ((int? 0 (integer i.toInt)).map fun line => (line, (0 : Int64))) = some (i, 0) := by
    rw [int_integer]
    rfl
  have hcolumn : ((int? 0 (integer j.toInt)).map fun column => (i, column)) = some (i, j) := by
    rw [int_integer]
    rfl
  change (((int? 0 (integer i.toInt)).map fun line => (line, (0 : Int64))).bind fun p =>
    ((int? p.2 (integer j.toInt)).map fun column => (p.1, column)).bind some) = some (i, j)
  rw [hline, Option.bind_some, hcolumn, Option.bind_some]

lemma location_fields (i j : Int64) :
    location? none (fields [("start", fields
      [("line", integer i.toInt), ("column", integer j.toInt)])]) = some (some (i, j)) := by
  have hplace := place_fields i j
  change ((place? (0, 0) (fields [("line", integer i.toInt), ("column", integer j.toInt)])).bind
    some).bind (fun place => some (some place)) = some (some (i, j))
  rw [hplace]
  rfl

lemma column_sub_one (h : n.pos.Writable) (hline : 0 < n.pos.line) :
    n.pos.column.toInt - 1 = (n.pos.column - 1).toInt := by
  have hlow := h.before hline
  have hhigh := n.pos.column.toInt_lt
  have hone : (1 : Int64).toInt = 1 := rfl
  rw [Int64.toInt_sub, hone]
  simp only [Int.bmod]
  omega

/-- The place of a node is read back. -/
lemma pos_membersOfNode (h : n.pos.Writable) : (membersOfNode n).pos = n.pos := by
  obtain ⟨hstart, hstop, hloc⟩ := @values_position n
  rw [Members.pos, int_header (by decide) hstart, int_header (by decide) hstop,
    values_header (by decide), hloc]
  by_cases hline : 0 < n.pos.line
  · rw [location, if_pos hline, column_sub_one h hline, List.map_cons, List.map_nil,
      List.foldl_cons, List.foldl_nil, location_fields]
    simp [hline]
  · have hzero : n.pos.line = 0 := by
      have hle := h.line
      have hnone : (0 : Int64).toInt = 0 := rfl
      rw [Int64.le_iff_toInt_le, hnone] at hle
      rw [Int64.lt_iff_toInt_lt, hnone] at hline
      rw [← Int64.toInt_inj, hnone]
      omega
    rw [location, if_neg hline, List.map_nil, List.foldl_nil]
    have hcolumn := h.column hzero
    cases hpos : n.pos with
    | mk line column start stop =>
      rw [hpos] at hzero hcolumn
      obtain rfl : line = 0 := hzero
      obtain rfl : column = 0 := hcolumn
      rfl

/-! ### Every node is read back -/

lemma fits_header (h : n.pos.Writable) : ∀ f ∈ header n, fits f.1 f.2 = true := by
  have hint : ∀ i : Int64, (int? 0 (integer i.toInt)).isSome = true := fun i => by
    rw [int_integer]
    rfl
  have hlocation : ∀ f ∈ location n.pos, fits f.1 f.2 = true := by
    intro f hf
    by_cases hline : 0 < n.pos.line
    · rw [location, if_pos hline, column_sub_one h hline, List.mem_singleton] at hf
      subst hf
      change (location? none _).isSome = true
      rw [location_fields]
      rfl
    · rw [location, if_neg hline] at hf
      cases hf
  simp only [header, List.forall_mem_cons]
  exact ⟨rfl, hint _, hint _, hlocation⟩

lemma fits_own : ∀ f ∈ own n, fits f.1 f.2 = true := by
  cases n with
  | declarator d =>
    obtain ⟨pos, id, init⟩ := d
    simp only [own, ownDeclarator, List.forall_mem_cons]
    exact ⟨rfl, rfl, by simp⟩
  | other pos kind =>
    intro f hf
    cases hf
  | program | block | identifier | literal | sequence | ret | expression | exportDefault
  | exportNamed =>
    simp only [own, List.forall_mem_cons]
    exact ⟨rfl, by simp⟩
  | call | arrow | declaration =>
    simp only [own, List.forall_mem_cons]
    exact ⟨rfl, rfl, by simp⟩
  | binary | assignment | conditional | member =>
    simp only [own, List.forall_mem_cons]
    exact ⟨rfl, rfl, rfl, by simp⟩

lemma node_membersOfNode (h : n.pos.Writable) (hkind : n.kind ≠ []) :
    (membersOfNode n).node = (membersOfNode n).build := by
  have hfits : (membersOfNode n).all (fun m => fits m.field m.value) = true := by
    rw [List.all_eq_true]
    intro m hm
    obtain ⟨f, hf, rfl⟩ := List.mem_map.mp hm
    rcases List.mem_append.mp hf with hf | hf
    · rw [field_header hf]
      exact fits_header h f hf
    · rw [field_own hf]
      exact fits_own f hf
  have hempty : ((membersOfNode n).text "type").isEmpty = false := by
    rw [text_type]
    simpa using hkind
  simp only [Members.node, hfits, hempty, Bool.not_true, Bool.false_eq_true, if_false]

def field (f : Text) (v : Value) : Member := ⟨.text f, v, outcome v, itemsOf v⟩

lemma text_own {f t : Text} (hf : f ∈ ownNames)
    (h : Members.last? (membersFrom (own n)) f = some (field f (.string t))) :
    (membersOfNode n).text f = t := by
  rw [Members.text, last_own hf, h]
  rfl

lemma child_own {f : Text} {inner : Option Node} (hf : f ∈ ownNames)
    (h : Members.last? (membersFrom (own n)) f = some (field f (ownOption inner)))
    (hinner : ∀ c ∈ inner, outcome (encode c) = .ok (some c)) :
    (membersOfNode n).child f = .ok inner := by
  rw [Members.child, last_own hf, h]
  cases inner with
  | none => rfl
  | some c => exact hinner c rfl

lemma required_own {f : Text} {c : Node} (hf : f ∈ ownNames)
    (h : Members.last? (membersFrom (own n)) f = some (field f (encode c)))
    (hc : outcome (encode c) = .ok (some c)) : (membersOfNode n).required f = .ok c := by
  have hchild : (membersOfNode n).child f = .ok (some c) := by
    rw [Members.child, last_own hf, h]
    exact hc
  rw [Members.required, hchild]
  rfl

lemma mapM_outcomes {α : Type} {encoded : α → Value} {read : Outcome → Except Diagnostic α}
    {xs : List α} (h : ∀ x ∈ xs, read (outcome (encoded x)) = .ok x) :
    (outcomes (xs.map encoded)).mapM read = .ok xs := by
  induction xs with
  | nil => rfl
  | cons x rest ih =>
    obtain ⟨hx, hrest⟩ := List.forall_mem_cons.mp h
    rw [List.map_cons, outcomes, List.mapM_cons, hx, ih hrest]
    rfl

lemma list_own {f : Text} {ns : List Node} (hf : f ∈ ownNames)
    (h : Members.last? (membersFrom (own n)) f = some (field f (.array (ownAll ns))))
    (hns : ∀ c ∈ ns, outcome (encode c) = .ok (some c)) :
    (membersOfNode n).list f = .ok ns := by
  rw [Members.list, last_own hf, h, ownAll_eq_map]
  refine mapM_outcomes fun c hc => ?_
  rw [hns c hc]
  rfl

/-- The names of a declaration are read back. -/
lemma declarators_own {ds : List (Declarator Node)}
    (h : Members.last? (membersFrom (own n)) "declarations" =
      some (field "declarations" (.array (ownDeclarators ds))))
    (hds : ∀ d ∈ ds, outcome (encode (.declarator d)) = .ok (some (.declarator d))) :
    (membersOfNode n).declarators = .ok ds := by
  rw [Members.declarators, last_own (by decide), h, ownDeclarators_eq_map]
  refine mapM_outcomes fun d hd => ?_
  rw [hds d hd]
  rfl

/-- A node is built from its fields, if its children are. -/
lemma build_membersOfNode (hpos : (membersOfNode n).pos = n.pos) (htelling : n.Telling)
    (hchildren : ∀ c ∈ n.children, outcome (encode c) = .ok (some c)) :
    (membersOfNode n).build = .ok n := by
  have hkind := @text_type n
  -- In each case the kind decides which branch is taken, and the fields are the ones it reads.
  cases n with
  | program pos body =>
    have hbody := @list_own (.program pos body) "body" body (by decide) rfl hchildren
    rw [Members.build, hkind, hbody, hpos]
    rfl
  | identifier pos name =>
    cases name with
    | nil => simp [Node.Telling] at htelling
    | cons b more =>
      have hname := @text_own (.identifier pos (b :: more)) "name" (b :: more) (by decide) rfl
      rw [Members.build, hkind, hname, hpos]
      rfl
  | literal pos raw =>
    have hraw : (membersOfNode (.literal pos raw)).spelling = some raw := by
      rw [Members.spelling, last_own (by decide)]
      rfl
    rw [Members.build, hkind, hraw, hpos]
    rfl
  | binary pos left operator right =>
    have hleft := @required_own (.binary pos left operator right) "left" left (by decide) rfl
      (hchildren left (by simp [Node.children]))
    have hright := @required_own (.binary pos left operator right) "right" right (by decide) rfl
      (hchildren right (by simp [Node.children]))
    have hoperator := @text_own (.binary pos left operator right) "operator" operator
      (by decide) rfl
    rw [Members.build, hkind, hleft, hright, hoperator, hpos]
    rfl
  | assignment pos left operator right =>
    have hleft := @required_own (.assignment pos left operator right) "left" left (by decide) rfl
      (hchildren left (by simp [Node.children]))
    have hright := @required_own (.assignment pos left operator right) "right" right (by decide) rfl
      (hchildren right (by simp [Node.children]))
    have hoperator := @text_own (.assignment pos left operator right) "operator" operator
      (by decide) rfl
    rw [Members.build, hkind, hleft, hright, hoperator, hpos]
    rfl
  | conditional pos test consequent alternate =>
    have htest := @required_own (.conditional pos test consequent alternate) "test" test
      (by decide) rfl (hchildren test (by simp [Node.children]))
    have hconsequent := @required_own (.conditional pos test consequent alternate) "consequent"
      consequent (by decide) rfl (hchildren consequent (by simp [Node.children]))
    have halternate := @required_own (.conditional pos test consequent alternate) "alternate"
      alternate (by decide) rfl (hchildren alternate (by simp [Node.children]))
    rw [Members.build, hkind, htest, hconsequent, halternate, hpos]
    rfl
  | call pos callee arguments =>
    have hcallee := @required_own (.call pos callee arguments) "callee" callee (by decide) rfl
      (hchildren callee (by simp [Node.children]))
    have harguments := @list_own (.call pos callee arguments) "arguments" arguments (by decide) rfl
      fun c hc => hchildren c (List.mem_cons_of_mem callee hc)
    rw [Members.build, hkind, hcallee, harguments, hpos]
    rfl
  | member pos object property computed =>
    have hobject := @required_own (.member pos object property computed) "object" object
      (by decide) rfl (hchildren object (by simp [Node.children]))
    have hproperty := @required_own (.member pos object property computed) "property" property
      (by decide) rfl (hchildren property (by simp [Node.children]))
    have hcomputed : (membersOfNode (.member pos object property computed)).flag "computed" =
        computed := by
      rw [Members.flag, values_own (by decide)]
      rfl
    rw [Members.build, hkind, hobject, hproperty, hcomputed, hpos]
    rfl
  | sequence pos expressions =>
    have hexpressions := @list_own (.sequence pos expressions) "expressions" expressions
      (by decide) rfl hchildren
    rw [Members.build, hkind, hexpressions, hpos]
    rfl
  | arrow pos params body =>
    have hparams := @list_own (.arrow pos params body) "params" params (by decide) rfl
      fun c hc => hchildren c (List.mem_append_left _ hc)
    have hbody := @required_own (.arrow pos params body) "body" body (by decide) rfl
      (hchildren body (by simp [Node.children]))
    rw [Members.build, hkind, hparams, hbody, hpos]
    rfl
  | block pos body =>
    have hbody := @list_own (.block pos body) "body" body (by decide) rfl hchildren
    rw [Members.build, hkind, hbody, hpos]
    rfl
  | declaration pos keyword declarators =>
    have hkeyword := @text_own (.declaration pos keyword declarators) "kind" keyword (by decide) rfl
    have hdeclarators := @declarators_own (.declaration pos keyword declarators) declarators rfl
      fun d hd => hchildren (.declarator d) (List.mem_map_of_mem hd)
    rw [Members.build, hkind, hkeyword, hdeclarators, hpos]
    rfl
  | declarator d =>
    obtain ⟨pos, id, init⟩ := d
    have hid := @required_own (.declarator ⟨pos, id, init⟩) "id" id (by decide) rfl
      (hchildren id (by simp [Node.children]))
    have hinit := @child_own (.declarator ⟨pos, id, init⟩) "init" init (by decide) rfl
      fun c hc => hchildren c (List.mem_cons_of_mem id (Option.mem_toList.mpr hc))
    rw [Members.build, hkind, hid, hinit, hpos]
    rfl
  | ret pos argument =>
    have hargument := @child_own (.ret pos argument) "argument" argument (by decide) rfl
      fun c hc => hchildren c (Option.mem_toList.mpr hc)
    rw [Members.build, hkind, hargument, hpos]
    rfl
  | expression pos inner =>
    have hinner := @required_own (.expression pos inner) "expression" inner (by decide) rfl
      (hchildren inner (by simp [Node.children]))
    rw [Members.build, hkind, hinner, hpos]
    rfl
  | exportDefault pos inner =>
    have hinner := @required_own (.exportDefault pos inner) "declaration" inner (by decide) rfl
      (hchildren inner (by simp [Node.children]))
    rw [Members.build, hkind, hinner, hpos]
    rfl
  | exportNamed pos inner =>
    have hinner := @child_own (.exportNamed pos inner) "declaration" inner (by decide) rfl
      fun c hc => hchildren c (Option.mem_toList.mpr hc)
    rw [Members.build, hkind, hinner, hpos]
    rfl
  | other pos kind =>
    obtain ⟨-, hother⟩ := htelling
    simp only [Node.kinds, List.mem_cons, List.not_mem_nil, or_false, not_or] at hother
    simp only [Members.build, hkind, Node.kind, hpos, hother, if_false]
    rfl

/-- A tree is read back from its canonical value. -/
theorem outcome_encode {n : Node} (writable : ∀ m : Node, m.Within n → m.pos.Writable)
    (telling : ∀ m : Node, m.Within n → m.Telling) : outcome (encode n) = .ok (some n) := by
  induction n using Node.childInduction with
  | step n ih =>
    have hpos := writable n (.root n)
    have htelling := telling n (.root n)
    have hchildren : ∀ c ∈ n.children, outcome (encode c) = .ok (some c) := fun c hc =>
      ih c hc (fun m hm => writable m (.deeper hc hm)) (fun m hm => telling m (.deeper hc hm))
    have hnode : (membersOfNode n).node = .ok n := by
      rw [node_membersOfNode hpos htelling.kind_ne_nil]
      exact build_membersOfNode (pos_membersOfNode hpos) htelling hchildren
    rw [encode, wrap, outcome_fields, ← membersOfNode, hnode]
    rfl

/-! ### Every tree can be written -/

lemma writable_fields {fs : List (Text × Value)} (h : ∀ f ∈ fs, f.2.Writable) :
    (fields fs).Writable := by
  refine .object ?_ ?_
  · rw [List.forall_mem_map]
    exact fun f _ => ⟨f.1, rfl⟩
  · rw [List.forall_mem_map]
    exact h

lemma writable_integer (n : Int) : (integer n).Writable :=
  .number (fun _ hb => Json.isNumberByte_of_mem_ofInt hb) (Json.isNumber_ofInt n)

lemma writable_header (n : Node) : ∀ f ∈ header n, f.2.Writable := by
  have hlocation : ∀ f ∈ location n.pos, f.2.Writable := by
    intro f hf
    by_cases hline : 0 < n.pos.line
    · rw [location, if_pos hline, List.mem_singleton] at hf
      subst hf
      have hplace : (fields [("line", integer n.pos.line.toInt),
          ("column", integer (n.pos.column.toInt - 1))]).Writable :=
        writable_fields (by simp [writable_integer])
      exact writable_fields (by simpa using hplace)
    · rw [location, if_neg hline] at hf
      cases hf
  simp only [header, List.forall_mem_cons]
  exact ⟨.string _, writable_integer _, writable_integer _, hlocation⟩

lemma writable_own (h : ∀ c ∈ n.children, (encode c).Writable) :
    ∀ f ∈ own n, f.2.Writable := by
  have hlist : ∀ ns ⊆ n.children, (Value.array (ownAll ns)).Writable := by
    intro ns hns
    rw [ownAll_eq_map]
    refine .array ?_
    rw [List.forall_mem_map]
    exact fun c hc => h c (hns hc)
  have hoption : ∀ inner : Option Node, inner.toList ⊆ n.children →
      (ownOption inner).Writable := by
    intro inner hinner
    cases inner with
    | none => exact .null
    | some c => exact h c (hinner List.mem_cons_self)
  have hnone : ∀ f ∈ ([] : List (Text × Value)), f.2.Writable := fun f hf => by cases hf
  cases n with
  | identifier | literal => exact List.forall_mem_cons.mpr ⟨.string _, hnone⟩
  | other => exact hnone
  | program pos nodes | block pos nodes | sequence pos nodes =>
    exact List.forall_mem_cons.mpr ⟨hlist nodes (List.Subset.refl nodes), hnone⟩
  | binary pos left operator right | assignment pos left operator right =>
    simp only [own, List.forall_mem_cons]
    exact ⟨h left (by simp [Node.children]), .string _, h right (by simp [Node.children]), hnone⟩
  | conditional pos test consequent alternate =>
    simp only [own, List.forall_mem_cons]
    exact ⟨h test (by simp [Node.children]), h consequent (by simp [Node.children]),
      h alternate (by simp [Node.children]), hnone⟩
  | call pos callee arguments =>
    simp only [own, List.forall_mem_cons]
    exact ⟨h callee List.mem_cons_self, hlist arguments (List.subset_cons_self _ _), hnone⟩
  | member pos object property computed =>
    simp only [own, List.forall_mem_cons]
    exact ⟨h object (by simp [Node.children]), h property (by simp [Node.children]), .bool _,
      hnone⟩
  | arrow pos params body =>
    simp only [own, List.forall_mem_cons]
    exact ⟨hlist params (List.subset_append_left _ _), h body (by simp [Node.children]), hnone⟩
  | declaration pos keyword declarators =>
    have hdeclarators : (Value.array (ownDeclarators declarators)).Writable := by
      rw [ownDeclarators_eq_map]
      refine .array ?_
      rw [List.forall_mem_map]
      exact fun d hd => h (.declarator d) (List.mem_map_of_mem hd)
    simp only [own, List.forall_mem_cons]
    exact ⟨.string _, hdeclarators, hnone⟩
  | declarator d =>
    obtain ⟨pos, id, init⟩ := d
    simp only [own, ownDeclarator, List.forall_mem_cons]
    exact ⟨h id List.mem_cons_self, hoption init (List.subset_cons_self _ _), hnone⟩
  | ret pos inner | exportNamed pos inner =>
    exact List.forall_mem_cons.mpr ⟨hoption inner (List.Subset.refl _), hnone⟩
  | expression pos inner | exportDefault pos inner =>
    exact List.forall_mem_cons.mpr ⟨h inner List.mem_cons_self, hnone⟩

lemma writable_header_own (h : ∀ c ∈ n.children, (encode c).Writable) :
    ∀ f ∈ header n ++ own n, f.2.Writable := by
  intro f hf
  rcases List.mem_append.mp hf with hf | hf
  · exact writable_header n f hf
  · exact writable_own h f hf

lemma writable_encode (n : Node) : (encode n).Writable := by
  induction n using Node.childInduction with
  | step n ih => exact writable_fields (writable_header_own ih)

/-! ### Trees as texts -/

lemma cleanSmall_of_writable {inner : Text → Value → Bool} {v : Value} (h : v.Writable)
    (hinner : ∀ field w, w.Writable → inner field w = true) : cleanSmall inner v = true := by
  cases h with
  | object names hmembers =>
    rw [cleanSmall, List.all_eq_true]
    exact fun m hm => hinner _ m.2 (hmembers m hm)
  | null => rfl
  | bool b => rfl
  | number bytes valid => rfl
  | string t => rfl
  | array hitems => exact (Value.Writable.array hitems).clean

lemma cleanField_of_writable {field : Text} {v : Value} (h : v.Writable) :
    cleanField field v = true := by
  have hsmall : ∀ w : Value, w.Writable → cleanSmall (fun _ v => v.clean) w = true := fun w hw =>
    cleanSmall_of_writable hw fun _ u hu => hu.clean
  rw [cleanField]
  split_ifs
  · refine cleanSmall_of_writable h fun inner w hw => ?_
    split_ifs
    · exact hsmall w hw
    · exact hw.clean
  · exact hsmall v h
  · exact h.clean

lemma fieldDepth_le (field : Text) (v : Value) : fieldDepth field v ≤ v.depth := by
  unfold fieldDepth
  split
  · split_ifs
    · rw [Value.depth]
      exact Nat.le_succ _
    · exact Nat.le_refl _
  · exact Nat.le_refl _

/-- An object that is not nested too deeply and has plain names is taken as it is. -/
lemma root_fields {fs : List (Text × Value)} (h : ∀ f ∈ fs, f.2.Writable)
    (hdepth : (fields fs).depth ≤ maxDepth) :
    root (fields fs) = Members.node (membersFrom fs) := by
  have hclean : cleanRoot (fs.map fun f => (.text f.1, f.2)) = true := by
    rw [cleanRoot, List.all_map, List.all_eq_true]
    exact fun f hf => cleanField_of_writable (h f hf)
  have hshallow : shallow (fs.map fun f => (.text f.1, f.2)) = true := by
    rw [shallow, List.all_eq_true]
    intro m hm
    have hmember := Json.depth_le_depthMembers hm
    have hfield := fieldDepth_le m.1.toText.lower m.2
    rw [fields, Value.depth] at hdepth
    exact decide_eq_true (by omega)
  rw [fields, root, hclean, hshallow, membersOf_fields]
  rfl

/-- A text that starts with a brace is read as one value. -/
lemma decodeNode_fields {fs : List (Text × Value)} (h : (fields fs).Writable)
    (hdepth : (fields fs).depth ≤ maxDepth) : decodeNode (fields fs).text = root (fields fs) := by
  have hdocument : Json.document? (fields fs).text = some (fields fs) :=
    Json.document_text h (Nat.le_trans hdepth (by decide))
  obtain ⟨rest, hbrace⟩ : ∃ rest, (fields fs).text = ('\x7b' : UInt8) :: rest := ⟨_, rfl⟩
  have htrim : (fields fs).text.trimStart = (fields fs).text := by
    rw [hbrace]
    rfl
  have hnull : (Text.dropStart? "null" (fields fs).text).map Text.trimStart = none := by
    rw [hbrace]
    rfl
  have hempty : (fields fs).text.isEmpty = false := by
    rw [hbrace]
    rfl
  rw [decodeNode, htrim, hnull, hempty, hdocument]
  rfl

/-- A tree is read back from its text. -/
lemma decodeNode_encode {n : Node} (writable : ∀ m : Node, m.Within n → m.pos.Writable)
    (telling : ∀ m : Node, m.Within n → m.Telling) (hdepth : (encode n).depth ≤ maxDepth) :
    decodeNode (encode n).text = .ok n := by
  have hnode : Members.node (membersFrom (header n ++ own n)) = .ok n := by
    have houtcome := outcome_encode writable telling
    rw [encode, wrap, outcome_fields, Result.map_eq_ok] at houtcome
    obtain ⟨m, hm, hmn⟩ := houtcome
    rw [hm, Option.some.inj hmn]
  have hfields := writable_header_own fun c (_ : c ∈ n.children) => writable_encode c
  rw [encode, wrap] at hdepth ⊢
  rw [decodeNode_fields (writable_fields hfields) hdepth, root_fields hfields hdepth, hnode]

end Tree

/-- A tree is read back from its canonical text as it was, if it is not nested too deeply. Read as
a program, it is that program, or refused for what it is. -/
theorem tree_reads_back {n : Node} (writable : ∀ m : Node, m.Within n → m.pos.Writable)
    (telling : ∀ m : Node, m.Within n → m.Telling)
    (shallow : (Tree.encode n).depth ≤ Tree.maxDepth) :
    Tree.decodeNode (Tree.encode n).text = .ok n ∧
      (∀ p : Program, n = p.toNode → Tree.decode (Tree.encode n).text = .ok p) ∧
      ((∀ p : Program, n ≠ p.toNode) → ∃ d, Tree.decode (Tree.encode n).text = .error d ∧
        d.code = "TREE-0003" ∧ d.line = n.pos.line ∧ d.column = n.pos.column) := by
  have hnode := Tree.decodeNode_encode writable telling shallow
  refine ⟨hnode, ?_, ?_⟩
  · rintro p rfl
    rw [Tree.decode, hnode]
    rfl
  · intro hother
    rw [Tree.decode, hnode]
    cases n with
    | program pos body => exact absurd rfl (hother ⟨pos, body⟩)
    | _ => exact ⟨_, rfl, rfl, rfl, rfl⟩

/-- A program with an unsupported statement and a literal that has to be escaped. -/
theorem escaped_literal_reads_back :
    Tree.decode (Tree.encode (.program ⟨1, 1, 0, 20⟩ [.other ⟨1, 1, 0, 1⟩ "EmptyStatement",
        .exportDefault ⟨2, 1, 2, 18⟩ (.literal ⟨2, 16, 17, 18⟩ "\"\n\"")])).text =
      .ok ⟨⟨1, 1, 0, 20⟩, [.other ⟨1, 1, 0, 1⟩ "EmptyStatement",
        .exportDefault ⟨2, 1, 2, 18⟩ (.literal ⟨2, 16, 17, 18⟩ "\"\n\"")]⟩ := by
  have hall : ∀ m : Node, m.Within (.program ⟨1, 1, 0, 20⟩ [.other ⟨1, 1, 0, 1⟩ "EmptyStatement",
      .exportDefault ⟨2, 1, 2, 18⟩ (.literal ⟨2, 16, 17, 18⟩ "\"\n\"")]) →
      m.pos.Writable ∧ m.Telling := by
    have hliteral : ∀ m : Node, m.Within (.literal ⟨2, 16, 17, 18⟩ "\"\n\"") →
        m.pos.Writable ∧ m.Telling :=
      Node.forall_within_iff.mpr
        ⟨⟨⟨by decide, by decide, by decide⟩, trivial⟩, by simp [Node.children]⟩
    have hother : ∀ m : Node, m.Within (.other ⟨1, 1, 0, 1⟩ "EmptyStatement") →
        m.pos.Writable ∧ m.Telling :=
      Node.forall_within_iff.mpr
        ⟨⟨⟨by decide, by decide, by decide⟩, by decide, by decide⟩, by simp [Node.children]⟩
    have hexport : ∀ m : Node, m.Within (.exportDefault ⟨2, 1, 2, 18⟩
        (.literal ⟨2, 16, 17, 18⟩ "\"\n\"")) → m.pos.Writable ∧ m.Telling :=
      Node.forall_within_iff.mpr
        ⟨⟨⟨by decide, by decide, by decide⟩, trivial⟩, by simpa [Node.children] using hliteral⟩
    exact Node.forall_within_iff.mpr ⟨⟨⟨by decide, by decide, by decide⟩, trivial⟩,
      List.forall_mem_cons.mpr ⟨hother, List.forall_mem_cons.mpr ⟨hexport, by simp⟩⟩⟩
  obtain ⟨-, hprogram, -⟩ := tree_reads_back (fun m hm => (hall m hm).1)
    (fun m hm => (hall m hm).2) (by decide)
  exact hprogram ⟨⟨1, 1, 0, 20⟩, _⟩ rfl

end SheetFormula
