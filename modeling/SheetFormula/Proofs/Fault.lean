import Mathlib.Tactic.Lemma
import SheetFormula.Fault

/-!
# Reports of faults

What every report has in common, whatever its cause: its code is in the catalog, it is of the class
of that code and of no other, and its message is the one of the catalog with all slots filled.
-/

namespace SheetFormula

/-- Whether the catalog accounts for a diagnostic: for its class, and for its message, in which
every slot has a value. -/
structure Diagnostic.Explains (d : Diagnostic) (e : Diagnostic.Definition) : Prop where
  listed : definition? d.code = some e
  cls : d.cls = e.cls
  supplied : ∀ name ∈ e.message.slots, d.data.get name ≠ .null
  message : d.message = e.message.flatMap (Template.Piece.fill d.data)

namespace Fault

/-- The codes of texts that are no trees. -/
def treeCodes : List Text := ["TREE-0001", "TREE-0002", "TREE-0003"]

/-- Whether a cause is that a text is no tree. -/
def isTree : Fault → Bool
  | badTree _ | missingField .. | rootKind _ => true
  | _ => false

lemma code_mem_treeCodes (f : Fault) : f.code ∈ treeCodes ↔ f.isTree = true := by
  cases f <;> simp only [code, isTree] <;> decide

lemma code_report (f : Fault) : f.report.code = f.code := by
  unfold report Diagnostic.ofCode
  split <;> rfl

lemma get_ne_null {data : Data} (hvalues : ∀ b ∈ data, b.2 ≠ .null) {name : Text}
    (hname : name ∈ data.map Prod.fst) : data.get name ≠ .null := by
  induction data with
  | nil => cases hname
  | cons b rest ih =>
    obtain ⟨hb, hrest⟩ := List.forall_mem_cons.mp hvalues
    obtain ⟨key, value⟩ := b
    by_cases h : name = key
    · simpa [Data.get, List.lookup_cons, h] using hb
    · have hlater : name ∈ rest.map Prod.fst := (List.mem_cons.mp hname).resolve_left h
      have hget : Data.get ((key, value) :: rest) name = Data.get rest name := by
        simp [Data.get, List.lookup_cons, beq_false_of_ne h]
      rw [hget]
      exact ih hrest hlater

/-- Without slots a template prints its own source. -/
lemma source_eq_fill {t : Template} (h : t.slots = []) (data : Data) :
    t.source = t.flatMap (Template.Piece.fill data) := by
  induction t with
  | nil => rfl
  | cons piece rest ih =>
    cases piece with
    | text u =>
      have hrest := ih h
      simp only [Template.source, List.flatMap_cons] at hrest ⊢
      rw [hrest]
      rfl
    | slot name => cases h

/-- A report is accounted for if its values have the names that its message mentions. -/
lemma explains_of_keys {f : Fault} {data : Data} {e : Diagnostic.Definition} (keys : List Text)
    (hdata : f.data = some data) (hkeys : data.map Prod.fst = keys)
    (hvalues : ∀ b ∈ data, b.2 ≠ .null) (hlisted : Diagnostic.definition? f.code = some e)
    (hslots : ∀ name ∈ e.message.slots, name ∈ keys) : f.report.Explains e := by
  have hreport : f.report.data = data ∧ f.report.cls = e.cls ∧
      f.report.message = e.message.flatMap (Template.Piece.fill data) := by
    simp [report, Diagnostic.ofCode, hlisted, hdata, Template.render]
  obtain ⟨hd, hc, hm⟩ := hreport
  refine ⟨?_, hc, ?_, ?_⟩
  · rw [code_report, hlisted]
  · rw [hd]
    exact fun name hname => get_ne_null hvalues (hkeys ▸ hslots name hname)
  · rw [hd, hm]

lemma explains_of_no_slots {f : Fault} {e : Diagnostic.Definition} (hdata : f.data = none)
    (hlisted : Diagnostic.definition? f.code = some e) (hslots : e.message.slots = []) :
    f.report.Explains e := by
  have hreport : f.report.cls = e.cls ∧ f.report.message = e.message.source := by
    simp [report, Diagnostic.ofCode, hlisted, hdata, Template.render]
  obtain ⟨hc, hm⟩ := hreport
  refine ⟨?_, hc, ?_, ?_⟩
  · rw [code_report, hlisted]
  · rw [hslots]
    exact fun name hname => absurd hname List.not_mem_nil
  · rw [hm]
    exact source_eq_fill hslots _

/-- The catalog accounts for every report. -/
lemma exists_explains (f : Fault) : ∃ e, f.report.Explains e := by
  cases f with
  | unsupportedKind kind =>
    cases h : kindHints.lookup kind with
    | none =>
      have hdata : (unsupportedKind kind).data =
          some ([("Kind", .text kind)] : List (Text × Datum)) := by
        simp [data, h]
      exact ⟨_, explains_of_keys ["Kind"] hdata rfl (by simp) rfl (by decide)⟩
    | some hint =>
      have hdata : (unsupportedKind kind).data =
          some ([("Kind", .text kind), ("Hint", .text hint)] : List (Text × Datum)) := by
        simp [data, h]
      exact ⟨_, explains_of_keys ["Kind", "Hint"] hdata rfl (by simp) rfl (by decide)⟩
  | parameterKind kind | destructured kind | rootKind kind =>
    exact ⟨_, explains_of_keys ["Kind"] rfl rfl (by simp) rfl (by decide)⟩
  | reassigned target =>
    exact ⟨_, explains_of_keys ["Target"] rfl rfl (by simp) rfl (by decide)⟩
  | manyReturns count =>
    exact ⟨_, explains_of_keys ["Count"] rfl rfl (by simp) rfl (by decide)⟩
  | misplaced kind place =>
    exact ⟨_, explains_of_keys ["Kind", "Where"] rfl rfl (by simp) rfl (by decide)⟩
  | unreachable name | redeclared name | noInitialValue name | reserved name
  | exportedTwice name =>
    exact ⟨_, explains_of_keys ["Name"] rfl rfl (by simp) rfl (by decide)⟩
  | unknownOperator operator =>
    exact ⟨_, explains_of_keys ["Operator", "Supported"] rfl rfl (by simp) rfl (by decide)⟩
  | badTree flaw =>
    exact ⟨_, explains_of_keys ["Reason"] rfl rfl (by simp) rfl (by decide)⟩
  | missingField kind field =>
    exact ⟨_, explains_of_keys ["Kind", "Field"] rfl rfl (by simp) rfl (by decide)⟩
  | noReturn | exportedNothing | noDefaultExport | manyDefaultExports =>
    exact ⟨_, explains_of_no_slots rfl rfl rfl⟩

end Fault

end SheetFormula
