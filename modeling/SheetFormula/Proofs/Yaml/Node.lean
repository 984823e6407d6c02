import Mathlib.Data.List.Basic
import Mathlib.Tactic.Lemma
import SheetFormula.Proofs.Yaml.Token
import SheetFormula.Yaml.Node

/-!
# The document of a written mapping

The tokens of a mapping are read as a mapping with the same keys and values in the same order.
-/

namespace SheetFormula.Yaml.Parser

variable {p : Parser} {t : Token} {kind : TokenKind} {kinds : List TokenKind} {rounds : Nat}

/-- The kinds of the tokens ahead, none of them a fault. -/
def Ahead (kinds : List TokenKind) (p : Parser) : Prop :=
  p.tokens.map Token.kind = kinds ∧ .fault ∉ kinds

lemma Ahead.peek (h : p.Ahead (kind :: kinds)) :
    ∃ t, p.peek? = some t ∧ t.kind = kind ∧ p.skip.Ahead kinds := by
  obtain ⟨hkinds, hfault⟩ := h
  obtain ⟨t, ts, htokens, rfl, rfl⟩ := List.map_eq_cons_iff.mp hkinds
  have hclean : (p.tokens.take 3).any (·.kind == .fault) = false := by
    rw [List.any_eq_false]
    intro u hu
    have hmem : u.kind ∈ p.tokens.map Token.kind := List.mem_map_of_mem (List.mem_of_mem_take hu)
    simpa using ne_of_mem_of_not_mem (hkinds ▸ hmem) hfault
  refine ⟨t, ?_, rfl, ?_, fun hmem => hfault (List.mem_cons_of_mem _ hmem)⟩
  · rw [peek?, hclean, htokens]
    rfl
  · simp [skip, htokens]

/-- A node without anchor and tag starts with its content. -/
lemma properties_eq (hpeek : p.peek? = some t) (hanchor : ∀ name, t.kind ≠ .anchor name)
    (htag : ∀ handle suffix, t.kind ≠ .tag handle suffix) :
    p.properties? = some ({ line := t.line + 1 }, p) := by
  unfold properties?
  simp only [hpeek, Option.bind_eq_bind, Option.bind_some]
  rfl

lemma nextIs_eq {kinds : List TokenKind} (hpeek : p.peek? = some t) :
    p.nextIs kinds = some (kinds.contains t.kind) := by
  rw [nextIs, hpeek]
  rfl

/-- A scalar is read as a node with its text. -/
lemma node_scalar {isPlain block indentless : Bool} {cs : List Char}
    (h : p.Ahead (.scalar isPlain cs :: kinds)) :
    ∃ line tag, node (rounds + 1) block indentless p =
      some (.scalar line tag (ofChars cs), p.skip) := by
  obtain ⟨t, hpeek, hkind, _⟩ := h.peek
  have hproperties := properties_eq hpeek (by simp [hkind]) (by simp [hkind])
  refine ⟨t.line + 1, ({ line := t.line + 1 } : Properties).scalarTag isPlain (ofChars cs), ?_⟩
  rw [node.eq_def]
  simp only [hpeek, hkind, hproperties, Option.bind_eq_bind, Option.bind_some]
  rfl

/-- A value in a block mapping. -/
lemma blockValue_scalar {isPlain : Bool} {cs : List Char}
    (h : p.Ahead (.value :: .scalar isPlain cs :: kinds)) :
    ∃ line tag, blockValue (rounds + 2) p = some (.scalar line tag (ofChars cs), p.skip.skip) := by
  obtain ⟨t, hpeek, hkind, hskip⟩ := h.peek
  obtain ⟨u, hpeek', hkind', _⟩ := hskip.peek
  obtain ⟨line, tag, hnode⟩ : ∃ line tag, node (rounds + 1) true true p.skip = _ :=
    node_scalar hskip
  refine ⟨line, tag, ?_⟩
  rw [blockValue.eq_def]
  simp only [hpeek, hkind, nextIs_eq hpeek', hkind', Option.bind_eq_bind, Option.bind_some, hnode]
  rfl

/-- The pairs of a block mapping are read in order. -/
lemma blockMapping_pairs {pairs : List (List Char × List Char)}
    (h : p.Ahead (pairs.flatMap Scanner.pairKinds ++ .blockEnd :: kinds))
    (hrounds : pairs.length + 2 < rounds) (done : List (Node × Node)) :
    ∃ nodes p', blockMapping rounds done p = some (done.reverse ++ nodes, p') ∧ p'.Ahead kinds ∧
      nodes.map (fun n => (n.1.value, n.2.value)) =
        pairs.map (fun q => (ofChars q.1, ofChars q.2)) := by
  induction pairs generalizing p rounds done with
  | nil =>
    obtain ⟨rounds, rfl⟩ : ∃ m, rounds = m + 1 := ⟨rounds - 1, by omega⟩
    obtain ⟨t, hpeek, hkind, hskip⟩ := h.peek
    refine ⟨[], p.skip, ?_, hskip, rfl⟩
    rw [blockMapping.eq_def, List.append_nil]
    simp only [hpeek, hkind, Option.bind_eq_bind, Option.bind_some]
    rfl
  | cons q pairs ih =>
    rw [List.length_cons] at hrounds
    obtain ⟨rounds, rfl⟩ : ∃ m, rounds = m + 3 := ⟨rounds - 3, by omega⟩
    obtain ⟨t, hpeek, hkind, hahead₁⟩ := h.peek
    obtain ⟨u, hpeek', hkind', hahead₂⟩ := hahead₁.peek
    obtain ⟨_, _, _, hahead₃⟩ := hahead₂.peek
    obtain ⟨_, _, _, hahead₄⟩ := hahead₃.peek
    obtain ⟨line, tag, hkey⟩ : ∃ line tag, node (rounds + 2) true true p.skip = _ :=
      node_scalar hahead₁
    obtain ⟨line', tag', hvalue⟩ : ∃ line tag, blockValue (rounds + 2) p.skip.skip = _ :=
      blockValue_scalar hahead₂
    obtain ⟨nodes, p', hread, hahead, hnodes⟩ := ih hahead₄ (by omega : _ < rounds + 2)
      ((.scalar line tag (ofChars q.1), .scalar line' tag' (ofChars q.2)) :: done)
    refine ⟨(.scalar line tag (ofChars q.1), .scalar line' tag' (ofChars q.2)) :: nodes, p', ?_,
      hahead, congrArg ((ofChars q.1, ofChars q.2) :: ·) hnodes⟩
    rw [List.reverse_cons, List.append_assoc, List.singleton_append] at hread
    rw [blockMapping.eq_def, ← hread]
    simp only [hpeek, hkind, nextIs_eq hpeek', hkind', Option.bind_eq_bind, Option.bind_some]
    simp [hkey, hvalue]

/-- A block mapping is read as a node. -/
lemma node_mapping {indentless : Bool} {pairs : List (List Char × List Char)}
    (h : p.Ahead (.blockMappingStart :: (pairs.flatMap Scanner.pairKinds ++ .blockEnd :: kinds)))
    (hrounds : pairs.length + 2 < rounds) :
    ∃ line tag nodes p', node (rounds + 1) true indentless p = some (.mapping line tag nodes, p') ∧
      p'.Ahead kinds ∧
      nodes.map (fun n => (n.1.value, n.2.value)) =
        pairs.map (fun q => (ofChars q.1, ofChars q.2)) := by
  obtain ⟨t, hpeek, hkind, hskip⟩ := h.peek
  have hproperties := properties_eq hpeek (by simp [hkind]) (by simp [hkind])
  obtain ⟨nodes, p', hread, hahead, hnodes⟩ := blockMapping_pairs hskip hrounds []
  refine ⟨t.line + 1, "!!map", nodes, p', ?_, hahead, hnodes⟩
  rw [node.eq_def]
  simp only [hpeek, hkind, hproperties, Option.bind_eq_bind, Option.bind_some, if_true]
  exact congrArg (Option.bind · _) hread

/-- The tokens of a mapping are read as a document with this mapping. -/
lemma document_mapping {ts : List Token} {pairs : List (List Char × List Char)}
    (h : ts.map Token.kind =
      .streamStart :: .blockMappingStart ::
        (pairs.flatMap Scanner.pairKinds ++ [.blockEnd, .streamEnd])) :
    ∃ d line tag nodes, document { tokens := ts } = some (some d) ∧
      d.root = .mapping line tag nodes ∧
      nodes.map (fun n => (n.1.value, n.2.value)) =
        pairs.map (fun q => (ofChars q.1, ofChars q.2)) := by
  have hfault : TokenKind.fault ∉ TokenKind.streamStart :: .blockMappingStart ::
      (pairs.flatMap Scanner.pairKinds ++ [.blockEnd, .streamEnd]) := by
    simp [Scanner.pairKinds]
  have hlength : ts.length = 4 * pairs.length + 4 := by
    rw [← List.length_map Token.kind, h]
    simp [Scanner.pairKinds, Nat.mul_comm]
  have hstart : Ahead _ { tokens := ts } := ⟨h, hfault⟩
  obtain ⟨t, hpeek, _, hskip⟩ := hstart.peek
  obtain ⟨u, hpeek', hkind, _⟩ := hskip.peek
  have hdefaults : Ahead _ (skip { tokens := ts }).addDefaults := hskip
  obtain ⟨line, tag, nodes, p', hnode, hahead, hnodes⟩ :
      ∃ line tag nodes p', node (4 * ts.length + 4) true false (skip { tokens := ts }).addDefaults =
        some (.mapping line tag nodes, p') ∧ p'.Ahead [.streamEnd] ∧ _ :=
    node_mapping hdefaults (by omega)
  obtain ⟨w, hpeek'', _, _⟩ := hahead.peek
  refine ⟨⟨.mapping line tag nodes, p'.anchored⟩, line, tag, nodes, ?_, rfl, hnodes⟩
  unfold document
  simp only [hpeek, hpeek', hkind, Option.bind_eq_bind, Option.bind_some, Bool.false_eq_true,
    if_false, hnode]
  simp [hpeek'']

end SheetFormula.Yaml.Parser

namespace SheetFormula.Yaml

variable {pairs : List (List Char × List Char)} {text : List Char}

lemma WrittenPairs.chars_eq (h : WrittenPairs pairs text) :
    chars? (ofChars text) = some text := by
  have hready := Scanner.ready_pairs h
  have hallowed := h.allowed
  cases text with
  | nil => rfl
  | cons c text => exact chars_ofChars (hready c rfl).mark hallowed

/-- A written mapping is read as a mapping with the same pairs. -/
lemma document_written (h : WrittenPairs pairs text) (hne : pairs ≠ []) :
    ∃ d line tag nodes, document? (ofChars text) = some (some d) ∧
      d.root = .mapping line tag nodes ∧
      nodes.map (fun n => (n.1.value, n.2.value)) =
        pairs.map (fun q => (ofChars q.1, ofChars q.2)) := by
  obtain ⟨d, line, tag, nodes, hdocument, hroot, hnodes⟩ :=
    Parser.document_mapping (tokens_written h hne)
  refine ⟨d, line, tag, nodes, ?_, hroot, hnodes⟩
  rw [document?, h.chars_eq, Option.bind_eq_bind, Option.bind_some, hdocument]

end SheetFormula.Yaml
