import Mathlib.Tactic.Lemma
import SheetFormula.Entries.Decode
import SheetFormula.Entries.Encode
import SheetFormula.Proofs.Yaml.Node

/-!
# Entries read back from YAML

Entries whose names and formulas have one line each are read back from YAML as they were written,
in order, whatever their texts look like.
-/

namespace SheetFormula

namespace Yaml

/-- A text of characters of which none ends a line: no line feed, carriage return or next line, and
no line or paragraph separator. -/
def OneLine (t : Text) : Prop := ∃ cs : List Char, t = ofChars cs ∧ ∀ c ∈ cs, isBreak c = false

lemma oneLine_ofString {s : String} (h : s.toList.all (fun c => !isBreak c) = true) :
    OneLine (Text.ofString s) :=
  ⟨s.toList, rfl, by simpa using h⟩

end Yaml

namespace Entries

open Yaml

/-- Entries of which every text has one line are those of pairs of characters. -/
lemma exists_pairs {es : Entries} (h : ∀ e ∈ es, OneLine e.name ∧ OneLine e.formula) :
    ∃ pairs, OnLines pairs ∧
      es.map (fun e => (e.name, e.formula)) = pairs.map (fun p => (ofChars p.1, ofChars p.2)) := by
  induction es with
  | nil => exact ⟨[], by simp [OnLines], rfl⟩
  | cons e es ih =>
    obtain ⟨⟨⟨name, hname, hname'⟩, formula, hformula, hformula'⟩, hes⟩ := List.forall_mem_cons.mp h
    obtain ⟨pairs, hpairs, hmap⟩ := ih hes
    refine ⟨(name, formula) :: pairs, List.forall_mem_cons.mpr ⟨⟨hname', hformula'⟩, hpairs⟩, ?_⟩
    rw [List.map_cons, List.map_cons, hmap, hname, hformula]

end Entries

open Yaml in
/-- Reading undoes writing as YAML for entries whose names and formulas are UTF-8 without line
breaks: each text is written without quotes or between quotes so that it is read as itself. -/
theorem yaml_entries_read_back {es : Entries} (hne : es ≠ [])
    (hlines : ∀ e ∈ es, OneLine e.name ∧ OneLine e.formula) :
    ∃ t, es.encode .yaml = .ok t ∧ Entries.decode t .yaml = .ok (some es) := by
  obtain ⟨pairs, hpairs, hmap⟩ := Entries.exists_pairs hlines
  have hne' : pairs ≠ [] := by
    rintro rfl
    simp [hne] at hmap
  obtain ⟨text, htext, hwritten⟩ := mapping_written hne' hpairs
  obtain ⟨d, line, tag, nodes, hdocument, hroot, hnodes⟩ := document_written hwritten hne'
  refine ⟨ofChars text, ?_, ?_⟩
  · rw [Entries.encode, hmap, htext]
  · have hentries : nodes.map (fun n => (⟨n.1.value, n.2.value⟩ : Binding)) = es := by
      have hcopy := congrArg (List.map fun q => (⟨q.1, q.2⟩ : Binding)) (hnodes.trans hmap.symm)
      simpa [Function.comp_def] using hcopy
    rw [Entries.decode, Entries.ofYaml, hdocument]
    simp only [hroot]
    rw [← hentries]

example : Entries.encode [⟨"a: b", " x"⟩, ⟨"y", "it's"⟩, ⟨"n", "12"⟩] .yaml =
    .ok "'a: b': ' x'\ny: it's\nn: \"12\"\n" := by
  decide

/-- Texts that would be something else without quotes: empty, with spaces at either end, words and
numbers of other types, marks of keys, comments and documents, quotes, a byte order mark and a
character beyond the basic plane; a name that takes a line of its own, and a repeated name. -/
def awkwardEntries : Entries :=
  [⟨"", " a "⟩, ⟨"null", "2001-01-01"⟩, ⟨"-1.5e3", "~"⟩, ⟨"a: b", "x #y"⟩, ⟨"- c", "? d"⟩,
    ⟨"---", "%"⟩, ⟨"it's", "say \"no\" \\ 'yes'"⟩, ⟨"\uFEFFé", "=IF(A1, \"😀\", \x7b1\x7d)"⟩,
    ⟨List.replicate 129 'k', ":"⟩, ⟨"null", "[]"⟩]

theorem awkward_entries_read_back :
    awkwardEntries ≠ [] ∧
      (∀ e ∈ awkwardEntries, Yaml.OneLine e.name ∧ Yaml.OneLine e.formula) ∧
      ∃ t, awkwardEntries.encode .yaml = .ok t ∧
        Entries.decode t .yaml = .ok (some awkwardEntries) := by
  have hlong : Yaml.OneLine (List.replicate 129 ('k' : UInt8)) :=
    ⟨List.replicate 129 'k', by decide, by simp [Yaml.isBreak]⟩
  have hlines : ∀ e ∈ awkwardEntries, Yaml.OneLine e.name ∧ Yaml.OneLine e.formula := by
    intro e he
    simp only [awkwardEntries, List.mem_cons, List.not_mem_nil, or_false] at he
    rcases he with rfl | rfl | rfl | rfl | rfl | rfl | rfl | rfl | rfl | rfl
    case inr.inr.inr.inr.inr.inr.inr.inr.inl => exact ⟨hlong, Yaml.oneLine_ofString rfl⟩
    all_goals exact ⟨Yaml.oneLine_ofString rfl, Yaml.oneLine_ofString rfl⟩
  exact ⟨by decide, hlines, yaml_entries_read_back (by decide) hlines⟩

end SheetFormula
