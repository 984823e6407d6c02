import SheetFormula.Batch
import SheetFormula.Proofs.Formula.Blame
import SheetFormula.Proofs.Tree.RoundTrip
import SheetFormula.Proofs.Tree.Soundness

/-!
# Failures of a unit

A text that is no tree fails with the code of a malformed tree. A tree that has been read is sound,
and can only fail at one of its nodes and with another code. Either way the catalog accounts for
the diagnostic, and in a file the diagnostic carries the path.
-/

namespace SheetFormula

namespace Diagnostic

/-- A diagnostic of a tree that could be read: the catalog accounts for it, it is of one class, and
it stands at a node of the tree. -/
structure WellPlaced (root : Node) (d : Diagnostic) : Prop where
  notTree : d.code ∉ Fault.treeCodes
  explained : ∃ e, d.Explains e ∧ ∀ c, d.isOf c = true ↔ c = e.cls
  placed : ∃ m : Node, m.Within root ∧ d.line = m.pos.line ∧ d.column = m.pos.column

lemma Blames.wellPlaced {root : Node} {d : Diagnostic} (h : d.Blames root) :
    d.WellPlaced root := by
  obtain ⟨f, _, hf, ⟨m, hm, rfl⟩, rfl⟩ := h
  obtain ⟨e, he⟩ := f.exists_explains
  have hexplains : (f.reportAt m.pos).Explains e := ⟨he.listed, he.cls, he.supplied, he.message⟩
  refine ⟨?_, ⟨e, hexplains, ?_⟩, m, hm, rfl, rfl⟩
  · have hcode : (f.reportAt m.pos).code = f.code := f.code_report
    rw [hcode, Fault.code_mem_treeCodes, hf]
    exact Bool.false_ne_true
  · intro c
    rw [isOf, hexplains.cls, beq_iff_eq, eq_comm]

lemma WellPlaced.inFile {root : Node} {d : Diagnostic} (h : d.WellPlaced root) (path : Text) :
    (d.inFile path).WellPlaced root := by
  obtain ⟨e, he, hclass⟩ := h.explained
  exact ⟨h.notTree, ⟨e, ⟨he.listed, he.cls, he.supplied, he.message⟩, hclass⟩, h.placed⟩

end Diagnostic

/-- A file that can be read fails as its text does, with the path added. -/
lemma FileTree.compileFile_eq_error {files : FileTree} {options : CompileOptions} {path t : Text}
    {failure : UnitFailure} (hread : files.read path = .ok t)
    (h : files.compileFile options path = .error failure) :
    ∃ d, failure = .diagnostic (d.inFile path) ∧ (Tree.decode t = .error d ∨
      ∃ p, Tree.decode t = .ok p ∧
        Output.ofProgram options.mode options.members (some p) = .error d) := by
  have hdecode : files.decodeFile path =
      (Tree.decode t).mapError fun d => .diagnostic (d.inFile path) := by
    rw [decodeFile, hread]
    rfl
  rw [compileFile, hdecode, Result.bind_eq_error] at h
  rcases h with h | ⟨p, hp, h⟩
  · obtain ⟨d, hd, rfl⟩ := Result.mapError_eq_error.mp h
    exact ⟨d, rfl, .inl hd⟩
  · obtain ⟨d, hd, rfl⟩ := Result.mapError_eq_error.mp h
    exact ⟨d, rfl, .inr ⟨p, Result.mapError_eq_ok.mp hp, hd⟩⟩

/-- Reading fails only for texts that are no trees and otherwise gives sound trees; compiling these
fails only at their nodes, with a diagnostic that the catalog accounts for; and what fails in a
file carries its path. -/
theorem failures_partitioned (t : Text) :
    (match Tree.decodeNode t with
      | .error d => d.code ∈ Fault.treeCodes
      | .ok n => n.Sound ∧ ∀ members d, Formula.ofNode members (some n) = .error d →
          d.WellPlaced n) ∧
    (match Tree.decode t with
      | .error d => d.code ∈ Fault.treeCodes
      | .ok p => p.toNode.Sound ∧ ∀ mode members d,
          Output.ofProgram mode members (some p) = .error d → d.WellPlaced p.toNode) ∧
    ∀ files options path failure, FileTree.read files path = .ok t →
      files.compileFile options path = .error failure →
        ∃ d, failure = .diagnostic d ∧ d.file = path ∧
          (d.code ∈ Fault.treeCodes ∨ ∃ p, Tree.decode t = .ok p ∧ d.WellPlaced p.toNode) := by
  have hnode := Tree.meets_decodeNode t
  have hprogram := Tree.meets_decode t
  refine ⟨?_, ?_, ?_⟩
  · split
    · rename_i d hd
      exact hnode.error hd
    · rename_i n hn
      rw [hn] at hnode
      refine ⟨hnode, fun members d hd => ?_⟩
      have hlower : Formula.Blamed n (Formula.ofNode members (some n)) :=
        (Formula.blamed_lower (.root n)).map fun _ _ => trivial
      exact (hlower.error hd).wellPlaced
  · split
    · rename_i d hd
      exact hprogram.error hd
    · rename_i p hp
      rw [hp] at hprogram
      exact ⟨hprogram, fun mode members d hd =>
        ((Output.blamed_ofProgram mode members p).error hd).wellPlaced⟩
  · intro files options path failure hread hfailure
    obtain ⟨d, rfl, hd | ⟨p, hp, hd⟩⟩ := FileTree.compileFile_eq_error hread hfailure
    · have hcode : d.OfTree := hprogram.error hd
      exact ⟨_, rfl, rfl, .inl hcode⟩
    · have hplaced := ((Output.blamed_ofProgram options.mode options.members p).error hd).wellPlaced
      exact ⟨_, rfl, rfl, .inr ⟨p, hp, hplaced.inFile path⟩⟩

/-- A module that adds a template to a number. -/
def templateProgram : Program :=
  ⟨⟨1, 1, 0, 25⟩, [.exportDefault ⟨3, 1, 2, 25⟩ (.binary ⟨3, 16, 17, 24⟩
    (.literal ⟨3, 16, 17, 18⟩ "1") "+" (.other ⟨3, 20, 21, 24⟩ "TemplateLiteral"))]⟩

def templateText : Text := (Tree.encode templateProgram.toNode).text

def templateTree : FileTree :=
  { entries := [(["src"], .directory), (["src", "a.json"], .file templateText)] }

lemma decode_templateText : Tree.decode templateText = .ok templateProgram := by
  have hall : ∀ m : Node, m.Within templateProgram.toNode → m.pos.Writable ∧ m.Telling := by
    -- Down from the root: the program, its one statement, the sum, and its two operands.
    refine Node.forall_within_iff.mpr ⟨⟨⟨by decide, by decide, by decide⟩, trivial⟩,
      List.forall_mem_singleton.mpr ?_⟩
    refine Node.forall_within_iff.mpr ⟨⟨⟨by decide, by decide, by decide⟩, trivial⟩,
      List.forall_mem_singleton.mpr ?_⟩
    refine Node.forall_within_iff.mpr ⟨⟨⟨by decide, by decide, by decide⟩, trivial⟩,
      List.forall_mem_cons.mpr ⟨?_, List.forall_mem_singleton.mpr ?_⟩⟩
    · exact Node.forall_within_iff.mpr
        ⟨⟨⟨by decide, by decide, by decide⟩, trivial⟩, by simp [Node.children]⟩
    · exact Node.forall_within_iff.mpr
        ⟨⟨⟨by decide, by decide, by decide⟩, by decide, by decide⟩, by simp [Node.children]⟩
  have hnode : Tree.decodeNode templateText = .ok templateProgram.toNode :=
    Tree.decodeNode_encode (fun m hm => (hall m hm).1) (fun m hm => (hall m hm).2) (by decide)
  rw [Tree.decode, hnode]
  rfl

/-- A template three levels inside a module fails the compilation of its file, and the diagnostic
stands at the template. -/
theorem template_operand_wellPlaced :
    Tree.decode templateText = .ok templateProgram ∧
    templateTree.read "src/a.json" = .ok templateText ∧
    ∃ d, templateTree.compileFile {} "src/a.json" = .error (.diagnostic d) ∧
      d.WellPlaced templateProgram.toNode ∧ d.code = "NODE-0001" ∧ d.kind = "TemplateLiteral" ∧
      d.file = "src/a.json" ∧ d.line = 3 ∧ d.column = 20 := by
  have hdecode := decode_templateText
  have hread : templateTree.read "src/a.json" = .ok templateText := rfl
  have hfailure : templateTree.compileFile {} "src/a.json" = .error (.diagnostic
      (((Fault.unsupportedKind "TemplateLiteral").reportAt ⟨3, 20, 21, 24⟩).inFile
        "src/a.json")) := by
    rw [FileTree.compileFile, FileTree.decodeFile, hread]
    simp only [Except.mapError, bind, Except.bind, hdecode]
    rfl
  obtain ⟨-, -, hfile⟩ := failures_partitioned templateText
  obtain ⟨d, hd, hpath, hcode | ⟨p, hp, hplaced⟩⟩ := hfile _ _ _ _ hread hfailure
  · cases hd
    have hother : (Fault.unsupportedKind "TemplateLiteral").code ∉ Fault.treeCodes := by decide
    exact absurd hcode hother
  · cases hd
    rw [hdecode] at hp
    cases hp
    exact ⟨hdecode, hread, _, hfailure, hplaced, rfl, rfl, hpath, rfl, rfl⟩

end SheetFormula
