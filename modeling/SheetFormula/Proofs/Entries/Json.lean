import Mathlib.Tactic.Set
import SheetFormula.Entries.Decode
import SheetFormula.Entries.Encode
import SheetFormula.Proofs.Json.RoundTrip

/-!
# Entries as JSON

Entries are written without blanks or one on a line. Both texts are the same tokens with different
blanks between them, and the reader passes over blanks, so one argument covers both: the machine
takes one round to enter the object and one for each entry.
-/

namespace SheetFormula

namespace Json

/-! ### Blanks -/

/-- A text of white space only. -/
def Blank (w : Text) : Prop := ∀ b ∈ w, isSpace b = true

instance decidableBlank (w : Text) : Decidable (Blank w) :=
  List.decidableBAll (fun b => isSpace b = true) w

section Blanks

variable {w : Text} (hw : Blank w) (t : Text)
include hw

lemma skipSpace_blank : skipSpace (w ++ t) = skipSpace t :=
  List.dropWhile_append_of_pos hw

lemma opening_blank : opening? (w ++ t) = opening? t := by
  rw [opening?, opening?, skipSpace_blank hw]

lemma laterName_blank : laterName? (w ++ t) = laterName? t := by
  rw [laterName?, laterName?, skipSpace_blank hw]

/-- Blanks after the brace of an object. An array differs: it keeps them for its first item. -/
lemma opening_brace_blank :
    opening? (('\x7b' : UInt8) :: (w ++ t)) = opening? (('\x7b' : UInt8) :: t) := by
  have hbrace : ∀ u, skipSpace (('\x7b' : UInt8) :: u) = ('\x7b' : UInt8) :: u :=
    fun u => skipSpace_cons (by decide)
  simp only [opening?, hbrace, skipSpace_blank hw]
  rfl

variable {rounds room : Nat} {stack : List Frame} {v : Value}

lemma resume_blank {frame : Frame} :
    resume rounds room (frame :: stack) v (w ++ t) = resume rounds room (frame :: stack) v t := by
  cases frame with
  | array done => simp only [resume, close, skipSpace_blank hw]
  | object done name => simp only [resume, close, skipSpace_blank hw]

lemma resume_comma_blank {done : List (Name × Value)} {name : Name} :
    resume rounds room (.object done name :: stack) v ((',' : UInt8) :: (w ++ t)) =
      resume rounds room (.object done name :: stack) v ((',' : UInt8) :: t) := by
  have hcomma : ∀ u, skipSpace ((',' : UInt8) :: u) = (',' : UInt8) :: u :=
    fun u => skipSpace_cons (by decide)
  simp only [resume, close, hcomma, if_true, laterName_blank hw]

end Blanks

end Json

namespace Entries

open Json

def members (es : Entries) : List (Name × Value) :=
  es.map fun e => (.text e.name, .string e.formula)

lemma mapM_ofMember (es : Entries) : (members es).mapM ofMember? = some es := by
  induction es with
  | nil => rfl
  | cons e rest ih =>
    have hmembers : members (e :: rest) = (.text e.name, .string e.formula) :: members rest := rfl
    rw [hmembers, List.mapM_cons, ih]
    rfl

lemma member_append (e : Binding) (gap rest : Text) :
    member ((':' : UInt8) :: gap) e ++ rest =
      plain e.name ++ (':' : UInt8) :: (gap ++ (plain e.formula ++ rest)) := by
  simp [member]

section Reading

variable {lead gap tail : Text} (hlead : Blank lead) (hgap : Blank gap) (htail : Blank tail)

/-- A formula is read in one round. -/
lemma run_formula (hgap : Blank gap) {rounds room : Nat} {stack : List Frame} (t rest : Text) :
    run (rounds + 1) room stack (gap ++ (plain t ++ rest)) =
      resume rounds room stack (.string t) rest := by
  apply run_whole
  rw [opening_blank hgap]
  exact opening_of_scalar (by decide) (by decide) (by decide) ((quotes_plain t).scalar rest)

include hlead hgap htail

/-- The later entries and the brace behind them. -/
lemma resume_entries (es : Entries) (rounds room : Nat) (stack : List Frame)
    (done : List (Name × Value)) (name : Name) (v : Value) (rest : Text) :
    resume (es.length + rounds) room (.object done name :: stack) v
        (Text.eachAfter ((',' : UInt8) :: lead) (es.map (member ((':' : UInt8) :: gap)))
          ++ (tail ++ ('\x7d' : UInt8) :: rest)) =
      resume rounds (room + 1) stack (.object (done.reverse ++ (name, v) :: members es)) rest := by
  induction es generalizing done name v with
  | nil =>
    rw [List.length_nil, Nat.zero_add]
    exact (resume_blank htail _).trans resume_object_end
  | cons e es ih =>
    have htext : Text.eachAfter ((',' : UInt8) :: lead)
        ((e :: es).map (member ((':' : UInt8) :: gap))) =
          (',' : UInt8) :: (lead ++ (member ((':' : UInt8) :: gap) e ++
            Text.eachAfter ((',' : UInt8) :: lead) (es.map (member ((':' : UInt8) :: gap))))) := by
      simp [Text.eachAfter]
    have hrounds : (e :: es).length + rounds = es.length + rounds + 1 := by
      rw [List.length_cons]
      omega
    rw [htext, hrounds]
    simp only [List.cons_append, List.append_assoc, member_append]
    rw [resume_comma_blank hlead, resume_object_next (quotes_plain _), run_formula hgap, ih]
    simp [members]

/-- Entries are read as one object, whatever the blanks and whatever follows. -/
lemma read_entries (e : Binding) (es : Entries) (rest : Text) :
    read? (('\x7b' : UInt8) :: (lead
        ++ (Text.join ((',' : UInt8) :: lead) ((e :: es).map (member ((':' : UInt8) :: gap)))
          ++ (tail ++ ('\x7d' : UInt8) :: rest)))) =
      some (.object (members (e :: es)), rest) := by
  rw [List.map_cons, Text.join_cons]
  simp only [List.append_assoc, List.cons_append, member_append]
  set later := Text.eachAfter ((',' : UInt8) :: lead) (es.map (member ((':' : UInt8) :: gap)))
    with hlater
  set t := lead ++ (plain e.name ++ (':' : UInt8) :: (gap ++ (plain e.formula ++
    (later ++ (tail ++ ('\x7d' : UInt8) :: rest))))) with ht
  -- Each entry but the first has a comma of its own, and the first has a colon.
  have hlength : es.length + 1 ≤ t.length := by
    have hcommas : es.length ≤ later.length := by
      have := Text.length_le_length_eachAfter (',' : UInt8) lead
        (es.map (member ((':' : UInt8) :: gap)))
      rwa [List.length_map] at this
    simp only [ht, List.length_append, List.length_cons]
    omega
  obtain ⟨rounds, hrounds⟩ : ∃ rounds, t.length = es.length + rounds + 1 :=
    ⟨t.length - es.length - 1, by omega⟩
  have hopen : opening? (('\x7b' : UInt8) :: t) = some (.inside (.object [] (.text e.name))
      (gap ++ (plain e.formula ++ (later ++ (tail ++ ('\x7d' : UInt8) :: rest))))) := by
    rw [ht, opening_brace_blank hlead]
    exact (quotes_plain e.name).opening_object _
  rw [read?, List.length_cons, hrounds, maxOpen, run_inside hopen, run_formula hgap, hlater,
    resume_entries hlead hgap htail]
  rfl

end Reading

/-- What entries come back as when they are read from JSON: an empty list is not told from an
absent one. -/
def present (es : Entries) : Option Entries := if es.isEmpty then none else some es

lemma ofJson_of_read {t rest : Text} {es : Entries}
    (h : read? t = some (.object (members es), rest)) : ofJson t = .ok es.present := by
  rw [ofJson, h]
  simp only [mapM_ofMember]
  cases es <;> rfl

/-- The blanks before an entry that has a line of its own. -/
def lineLead : Text := "\n  "

lemma json_eq {es : Entries} (h : es ≠ []) :
    es.json = ('\x7b' : UInt8) :: (lineLead
      ++ (Text.join ((',' : UInt8) :: lineLead) (es.map (member ((':' : UInt8) :: " ")))
        ++ ("\n" ++ ('\x7d' : UInt8) :: "\n"))) := by
  rw [json, if_neg (by simpa using h)]
  simp only [List.append_assoc]
  rfl

lemma ofJson_json (es : Entries) : ofJson es.json = .ok es.present := by
  cases es with
  | nil => rfl
  | cons e es =>
    rw [json_eq (List.cons_ne_nil e es)]
    exact ofJson_of_read (read_entries (by decide) (by decide) (by decide) e es "\n")

lemma ofJson_compactJson (es : Entries) : ofJson es.compactJson = .ok es.present := by
  cases es with
  | nil => rfl
  | cons e es =>
    have hblank : Blank [] := by decide
    exact ofJson_of_read (read_entries hblank hblank hblank e es [])

/-- Reading undoes both ways of writing entries as JSON, whatever bytes names and formulas hold and
however often a name is repeated. -/
theorem json_entries_read_back (es : Entries) :
    (∃ t, es.encode .json = .ok t ∧
      Entries.decode t .json = .ok (if es = [] then none else some es)) ∧
      Entries.decode es.compactJson .json = .ok (if es = [] then none else some es) := by
  have hpresent : es.present = if es = [] then none else some es := by
    cases es <;> rfl
  rw [← hpresent]
  exact ⟨⟨es.json, rfl, ofJson_json es⟩, ofJson_compactJson es⟩

end Entries

end SheetFormula
