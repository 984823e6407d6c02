import Mathlib.Tactic.Lemma
import SheetFormula.Tree.Node

/-!
# Parts of a tree

The children of a node, the nodes that occur in a tree, and induction from the leaves up. The
names of a declaration are children like any other node, each with its own identifier and value.
-/

namespace SheetFormula.Node

/-- The nodes directly below a node, in order. -/
def children : Node → List Node
  | identifier .. | literal .. | other .. => []
  | program _ body | block _ body => body
  | binary _ left _ right | assignment _ left _ right => [left, right]
  | conditional _ test consequent alternate => [test, consequent, alternate]
  | call _ callee arguments => callee :: arguments
  | member _ object property _ => [object, property]
  | sequence _ expressions => expressions
  | arrow _ params body => params ++ [body]
  | declaration _ _ declarators => declarators.map declarator
  | declarator d => d.id :: d.init.toList
  | ret _ inner | exportNamed _ inner => inner.toList
  | expression _ inner | exportDefault _ inner => [inner]

/-- `m.Within n`: the node `m` occurs in the tree `n`. -/
inductive Within : Node → Node → Prop
  | root (n : Node) : Within n n
  | deeper {m c n : Node} (child : c ∈ n.children) (inner : Within m c) : Within m n

lemma Within.child {c n : Node} (h : c ∈ n.children) : c.Within n := .deeper h (.root c)

lemma Within.trans {a b c : Node} (hab : a.Within b) (hbc : b.Within c) : a.Within c := by
  induction hbc with
  | root => exact hab
  | deeper child _ ih => exact .deeper child ih

lemma forall_within_iff {P : Node → Prop} {n : Node} :
    (∀ m : Node, m.Within n → P m) ↔ P n ∧ ∀ c ∈ n.children, ∀ m : Node, m.Within c → P m := by
  constructor
  · intro h
    exact ⟨h n (.root n), fun c hc m hm => h m (.deeper hc hm)⟩
  · rintro ⟨hn, hchildren⟩ m hm
    cases hm with
    | root => exact hn
    | deeper child inner => exact hchildren _ child m inner

lemma sizeOf_child {c n : Node} (h : c ∈ n.children) : sizeOf c < sizeOf n := by
  cases n with
  | identifier | literal | other => cases h
  | program pos nodes | block pos nodes | sequence pos nodes =>
    have hc : sizeOf c < sizeOf nodes := List.sizeOf_lt_of_mem h
    simp only [program.sizeOf_spec, block.sizeOf_spec, sequence.sizeOf_spec]
    omega
  | call pos callee arguments =>
    rcases List.mem_cons.mp h with rfl | h
    · simp only [call.sizeOf_spec]
      omega
    · have hc := List.sizeOf_lt_of_mem h
      simp only [call.sizeOf_spec]
      omega
  | arrow pos params body =>
    rcases List.mem_append.mp h with h | h
    · have hc := List.sizeOf_lt_of_mem h
      simp only [arrow.sizeOf_spec]
      omega
    · obtain rfl := List.mem_singleton.mp h
      simp only [arrow.sizeOf_spec]
      omega
  | declaration pos keyword ds =>
    obtain ⟨d, hd, rfl⟩ := List.mem_map.mp h
    have hc := List.sizeOf_lt_of_mem hd
    simp only [declaration.sizeOf_spec, declarator.sizeOf_spec]
    omega
  | declarator d =>
    obtain ⟨pos, id, init⟩ := d
    rcases List.mem_cons.mp h with rfl | h
    · simp only [declarator.sizeOf_spec, Declarator.mk.sizeOf_spec]
      omega
    · obtain rfl : init = some c := by simpa using h
      simp only [declarator.sizeOf_spec, Declarator.mk.sizeOf_spec, Option.some.sizeOf_spec]
      omega
  | ret pos inner | exportNamed pos inner =>
    obtain rfl : inner = some c := by simpa [children] using h
    simp only [ret.sizeOf_spec, exportNamed.sizeOf_spec, Option.some.sizeOf_spec]
    omega
  | expression pos inner | exportDefault pos inner =>
    obtain rfl := List.mem_singleton.mp h
    simp only [expression.sizeOf_spec, exportDefault.sizeOf_spec]
    omega
  | conditional pos test consequent alternate =>
    simp only [conditional.sizeOf_spec]
    obtain rfl | rfl | rfl : c = test ∨ c = consequent ∨ c = alternate := by
      simpa [children] using h
    all_goals omega
  | binary pos left operator right | assignment pos left operator right
  | member pos left right computed =>
    simp only [binary.sizeOf_spec, assignment.sizeOf_spec, member.sizeOf_spec]
    obtain rfl | rfl : c = left ∨ c = right := by simpa [children] using h
    all_goals omega

/-- A property holds of every tree if nodes inherit it from their children. -/
@[elab_as_elim]
theorem childInduction {motive : Node → Prop}
    (step : ∀ n : Node, (∀ c ∈ n.children, motive c) → motive n) (n : Node) : motive n :=
  step n fun c _ => childInduction step c
termination_by sizeOf n
decreasing_by exact sizeOf_child ‹_›

/-- The same with the property known of everything below a node. -/
@[elab_as_elim]
theorem withinInduction {motive : Node → Prop}
    (step : ∀ n : Node, (∀ c ∈ n.children, ∀ m : Node, m.Within c → motive m) → motive n)
    (n : Node) : motive n := by
  suffices h : ∀ m : Node, m.Within n → motive m from h n (.root n)
  induction n using childInduction with
  | step n ih => exact forall_within_iff.mpr ⟨step n ih, ih⟩

/-- The kinds of nodes that have a place in a unit. -/
def kinds : List Text :=
  ["Program", "Identifier", "Literal", "BinaryExpression", "ConditionalExpression",
   "CallExpression", "MemberExpression", "SequenceExpression", "ArrowFunctionExpression",
   "BlockStatement", "VariableDeclaration", "VariableDeclarator", "ReturnStatement",
   "ExpressionStatement", "AssignmentExpression", "ExportDefaultDeclaration",
   "ExportNamedDeclaration"]

/-- Whether a node can be told from its object: names are not empty, and an unsupported node is of
a kind of its own. -/
def Telling : Node → Prop
  | identifier _ name => name ≠ []
  | other _ kind => kind ≠ [] ∧ kind ∉ kinds
  | _ => True

lemma Telling.kind_ne_nil {n : Node} (h : n.Telling) : n.kind ≠ [] := by
  cases n with
  | other pos kind => exact h.1
  | _ =>
    simp only [Node.kind]
    decide

end SheetFormula.Node
