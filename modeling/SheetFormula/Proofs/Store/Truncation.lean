import SheetFormula.Proofs.Entries.Json
import SheetFormula.Proofs.Json.Extension
import SheetFormula.Proofs.Result
import SheetFormula.Store

/-!
# Manifests that are cut off

A manifest file may be cut off while it is written. What is left is read as the whole manifest if
only the line feed at the end is missing, and is refused otherwise: if entries could be read from
it, then the same entries would be read from the whole text, with more left behind them than the
line feed.
-/

namespace SheetFormula

namespace Entries

open Json

/-- Up to its last line feed the text of entries is one object. -/
lemma exists_json_eq_object (es : Entries) :
    ∃ object, es.json = object ++ "\n" ∧ read? object = some (.object (members es), []) := by
  cases es with
  | nil => exact ⟨"\x7b\x7d", rfl, rfl⟩
  | cons e es =>
    have hlead : Blank lineLead := by decide
    have hgap : Blank " " := by decide
    have htail : Blank "\n" := by decide
    refine ⟨_, ?_, read_entries hlead hgap htail e es []⟩
    rw [json_eq (List.cons_ne_nil e es)]
    simp only [List.append_assoc, List.cons_append, List.nil_append]

/-- Entries come from an object or from null, and both end with a byte of their own. -/
lemma read_of_ofJson {t : Text} {found : Option Entries} (h : ofJson t = .ok found) :
    ∃ v rest, read? t = some (v, rest) ∧ v.Closed := by
  rw [ofJson] at h
  split at h
  · rename_i rest hread
    exact ⟨.null, rest, hread, trivial⟩
  · rename_i members rest hread
    exact ⟨.object members, rest, hread, trivial⟩
  · cases h

/-- If the text of entries can be read without its end, then this end is at most the line feed. -/
lemma cut_of_ofJson {es : Entries} {kept cut : Text} {found : Option Entries}
    (hwhole : es.json = kept ++ cut) (h : ofJson kept = .ok found) : cut = [] ∨ cut = "\n" := by
  obtain ⟨object, hjson, hread⟩ := exists_json_eq_object es
  obtain ⟨v, rest, hkept, hclosed⟩ := read_of_ofJson h
  have hlonger := read_append hkept hclosed cut
  have hfull := read_append hread trivial "\n"
  rw [← hwhole, hjson, hfull, Option.some.injEq, Prod.mk.injEq] at hlonger
  obtain ⟨-, hrest⟩ := hlonger
  have hline : [(10 : UInt8)] = rest ++ cut := hrest
  rcases List.singleton_eq_append_iff.mp hline with ⟨-, hcut⟩ | ⟨-, hcut⟩
  · exact .inr hcut
  · exact .inl hcut

lemma ofJson_of_cut {es : Entries} {kept cut : Text} (hwhole : es.json = kept ++ cut)
    (hcut : cut = [] ∨ cut = "\n") : ofJson kept = .ok es.present := by
  rcases hcut with rfl | rfl
  · rw [List.append_nil] at hwhole
    rw [← hwhole]
    exact ofJson_json es
  · obtain ⟨object, hjson, hread⟩ := exists_json_eq_object es
    rw [hjson] at hwhole
    rw [← List.append_cancel_right hwhole]
    exact ofJson_of_read hread

lemma ofJson_eq_error {t : Text} {e : DecodeError} (h : ofJson t = .error e) : e = .json := by
  rw [ofJson] at h
  split at h
  · cases h
  · split at h <;> cases h
    rfl
  · cases h
    rfl

/-- What is left of a manifest that is cut off is refused, unless at most the line feed is gone. -/
lemma ofJson_cut {es : Entries} {kept cut : Text} (hwhole : es.json = kept ++ cut) :
    ofJson kept = if cut = [] ∨ cut = "\n" then .ok es.present else .error .json := by
  split_ifs with hcut
  · exact ofJson_of_cut hwhole hcut
  · cases hkept : ofJson kept with
    | ok found => exact absurd (cut_of_ofJson hwhole hkept) hcut
    | error e => rw [ofJson_eq_error hkept]

end Entries

/-- A manifest that is cut off at any byte is never read as a shorter one. What is left of its JSON
text is refused, unless nothing or only the line feed at the end is gone: then it is the whole
manifest. Loading it from a file does the same. -/
theorem truncated_manifest_refused {es : Entries} {kept cut : Text}
    (h : es.encode .json = .ok (kept ++ cut)) :
    (Entries.decode kept .json =
      if cut = [] ∨ cut = "\n" then .ok (if es = [] then none else some es) else .error .json) ∧
    ∀ (s : FileStore) (t : FileTree) (unit : Text) (canceled : Bool),
      s.format = .json → t.read (s.path unit) = .ok kept →
      (Store.files s).load t canceled unit =
        if canceled then .error .canceled
        else if cut = [] ∨ cut = "\n" then .ok (if es = [] then none else some es)
        else .error (.during ("decoding manifest " ++ s.path unit)
          (.stated "decoding formulas: <json>")) := by
  have hpresent : es.present = if es = [] then none else some es := by
    cases es <;> rfl
  have hdecode := Entries.ofJson_cut (Except.ok.inj h)
  rw [← hpresent]
  refine ⟨hdecode, ?_⟩
  intro s t unit canceled hformat hread
  rw [Store.load]
  split_ifs with hcanceled hcut
  · rfl
  · rw [if_pos hcut] at hdecode
    simp only [FileStore.load, hread, hformat, Entries.decode, hdecode]
    rfl
  · rw [if_neg hcut] at hdecode
    simp only [FileStore.load, hread, hformat, Entries.decode, hdecode]
    rfl

/-- A manifest of two entries that is cut off inside an escape of the second one. -/
theorem cut_escape_refused :
    ∃ kept cut, Entries.encode [⟨"A", "=1"⟩, ⟨"B", "=\"\n\""⟩] .json = .ok (kept ++ cut) ∧
      kept = "\x7b\n  \"A\": \"=1\",\n  \"B\": \"=\\\"\\" ∧
      Entries.decode kept .json = .error .json ∧
      (Store.files ⟨.json, []⟩).load ⟨[(["a.exports.json"], .file kept)], []⟩ false "a.json" =
        .error
          (.during "decoding manifest a.exports.json" (.stated "decoding formulas: <json>")) := by
  have hwhole : Entries.encode [⟨"A", "=1"⟩, ⟨"B", "=\"\n\""⟩] .json =
      .ok ("\x7b\n  \"A\": \"=1\",\n  \"B\": \"=\\\"\\" ++ "n\\\"\"\n\x7d\n") := by decide
  obtain ⟨hdecode, hload⟩ := truncated_manifest_refused hwhole
  exact ⟨_, _, hwhole, rfl, hdecode, hload ⟨.json, []⟩ _ "a.json" false rfl (by decide)⟩

end SheetFormula
