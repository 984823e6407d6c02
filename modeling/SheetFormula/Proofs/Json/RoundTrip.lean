import Mathlib.Data.List.Forall2
import Mathlib.Tactic.Lemma
import Mathlib.Tactic.SplitIfs
import SheetFormula.Json.Reader
import SheetFormula.Json.Writer
import SheetFormula.Proofs.Text

/-!
# JSON texts

The compact text of a JSON value, and the value read back from it. The machine that reads is
followed from the start of a value to the point where it hands the value to the frame around it;
what comes after the value does not matter, as long as it cannot continue a number.
-/

namespace SheetFormula.Json

/-! ### Strings -/

lemma stringFrom_skip {escaped raw : Bool} {done : Text} (e rest : Text) :
    stringFrom e.length escaped raw done (e ++ rest) = stringFrom 0 escaped raw done rest := by
  induction e with
  | nil => rfl
  | cons b e ih => exact ih

lemma hexValue_hexDigit : ∀ d < 16, Text.hexValue? (Text.hexDigit d) = some d := by decide

lemma unitBytes_ascii : ∀ n < 128, isSurrogate n = false ∧ unitBytes n = [n.toUInt8] := by decide

lemma escape_unit {t : Text} {n : Nat} (hunit : unit? t = some n) (h : isSurrogate n = false) :
    escape? (('u' : UInt8) :: t) = some (unitBytes n, 5) := by
  change (unit? t).bind _ = _
  rw [hunit, Option.bind_some, h]
  rfl

/-- What stands after the backslash in the escape of a byte is read as that byte. -/
lemma exists_escapeByte {b : UInt8} (h : b < 0x80) :
    ∃ e, escapeByte b = ('\\' : UInt8) :: e ∧
      ∀ rest, escape? (e ++ rest) = some ([b], e.length) := by
  unfold escapeByte
  split_ifs with hself hline hreturn htab
  · refine ⟨[b], rfl, fun rest => ?_⟩
    have hb : b = '"' ∨ b = '\\' := by simpa using hself
    rcases hb with rfl | rfl <;> rfl
  · exact ⟨['n'], rfl, fun rest => hline ▸ rfl⟩
  · exact ⟨['r'], rfl, fun rest => hreturn ▸ rfl⟩
  · exact ⟨['t'], rfl, fun rest => htab ▸ rfl⟩
  · obtain ⟨hsingle, hbytes⟩ := unitBytes_ascii b.toNat (UInt8.lt_iff_toNat_lt.mp h)
    refine ⟨"u00" ++ Text.hex 2 b.toNat, rfl, fun rest => ?_⟩
    have hunit : unit? ('0' :: '0' :: Text.hexDigit (b.toNat / 16 % 16) ::
        Text.hexDigit (b.toNat % 16) :: rest) = some b.toNat := by
      have hzero : Text.hexValue? '0' = some 0 := rfl
      have hsum : 0 * 4096 + 0 * 256 + b.toNat / 16 % 16 * 16 + b.toNat % 16 = b.toNat := by
        have hlt := b.toNat_lt
        omega
      simpa [unit?, hzero, hexValue_hexDigit _ (Nat.mod_lt _ (by decide : 16 > 0))] using hsum
    have hescape := escape_unit hunit hsingle
    rw [hbytes, Nat.toUInt8, UInt8.ofNat_toNat] at hescape
    exact hescape

lemma lt_of_needsEscape {b : UInt8} (h : needsEscape b = true) : b < 0x80 := by
  simp only [needsEscape, Bool.or_eq_true, decide_eq_true_eq, beq_iff_eq] at h
  rcases h with (h | rfl) | rfl
  · exact UInt8.lt_trans h (by decide)
  · decide
  · decide

/-- A piece of the inside of a string stands for some bytes. -/
def Reads (piece bytes : Text) : Prop :=
  ∀ escaped raw done rest, ∃ escaped', stringFrom 0 escaped raw done (piece ++ rest) =
    stringFrom 0 escaped' raw (bytes.reverse ++ done) rest

lemma reads_escape {e bytes : Text} (h : ∀ rest, escape? (e ++ rest) = some (bytes, e.length)) :
    Reads (('\\' : UInt8) :: e) bytes := by
  intro escaped raw done rest
  refine ⟨true, ?_⟩
  rw [List.cons_append, stringFrom, if_neg (by decide), if_pos rfl, h]
  exact stringFrom_skip e rest

lemma reads_escapeByte {b : UInt8} (h : b < 0x80) : Reads (escapeByte b) [b] := by
  obtain ⟨e, he, hescape⟩ := exists_escapeByte h
  rw [he]
  exact reads_escape hescape

/-- Bytes that need no escape stand for themselves. -/
lemma reads_self {t : Text} (h : ∀ b ∈ t, needsEscape b = false) : Reads t t := by
  induction t with
  | nil => exact fun escaped raw done rest => ⟨escaped, rfl⟩
  | cons b t ih =>
    obtain ⟨hb, ht⟩ := List.forall_mem_cons.mp h
    intro escaped raw done rest
    obtain ⟨escaped', hread⟩ := ih ht escaped raw (b :: done) rest
    have hother : ∀ c, needsEscape c = true → b ≠ c := by
      rintro c hc rfl
      rw [hb] at hc
      cases hc
    have hcontrol : ¬ b < 0x20 := by
      intro hlow
      simp [needsEscape, hlow] at hb
    refine ⟨escaped', ?_⟩
    rw [List.cons_append, stringFrom, if_neg (hother '"' rfl), if_neg (hother '\\' rfl)]
    simp [hcontrol, hread]

/-- The inside of a string is read piece by piece, up to the quote that ends it. -/
lemma stringFrom_flatMap {α : Type} {write bytes : α → Text} {xs : List α}
    (h : ∀ x ∈ xs, Reads (write x) (bytes x)) {escaped raw : Bool} {done : Text} (rest : Text) :
    stringFrom 0 escaped raw done (xs.flatMap write ++ ('"' : UInt8) :: rest) =
      some ⟨done.reverse ++ xs.flatMap bytes, raw, rest⟩ := by
  induction xs generalizing escaped done with
  | nil => simp [stringFrom]
  | cons x xs ih =>
    obtain ⟨hx, hxs⟩ := List.forall_mem_cons.mp h
    obtain ⟨escaped', hread⟩ := hx escaped raw done (xs.flatMap write ++ ('"' : UInt8) :: rest)
    rw [List.flatMap_cons, List.append_assoc, hread, ih hxs]
    simp

/-- A text that is read as a string, up to the quote that ends it and whatever follows. -/
def Quotes (s t : Text) : Prop :=
  ∃ body, s = ('"' : UInt8) :: body ∧ ∀ rest, string? (body ++ rest) = some ⟨t, false, rest⟩

lemma quotes_flatMap {α : Type} {write bytes : α → Text} {xs : List α}
    (h : ∀ x ∈ xs, Reads (write x) (bytes x)) :
    Quotes ("\"" ++ xs.flatMap write ++ "\"") (xs.flatMap bytes) := by
  refine ⟨xs.flatMap write ++ "\"", rfl, fun rest => ?_⟩
  rw [List.append_assoc]
  exact stringFrom_flatMap h rest

lemma quotes_plain (t : Text) : Quotes (plain t) t := by
  have hquotes : Quotes (plain t) (t.flatMap fun b => [b]) := by
    refine quotes_flatMap fun b _ => ?_
    by_cases h : needsEscape b = true
    · rw [if_pos h]
      exact reads_escapeByte (lt_of_needsEscape h)
    · rw [if_neg h]
      exact reads_self (List.forall_mem_singleton.mpr (Bool.eq_false_iff.mpr h))
  rwa [List.flatMap_singleton'] at hquotes

section Quotes

variable {s t : Text} (h : Quotes s t) (rest : Text)
include h

lemma Quotes.scalar : scalar? (s ++ rest) = some (.string t, rest) := by
  obtain ⟨body, rfl, hread⟩ := h
  change (string? (body ++ rest)).bind _ = _
  rw [hread]
  rfl

lemma Quotes.laterName : laterName? (s ++ (':' : UInt8) :: rest) = some (.text t, rest) := by
  obtain ⟨body, rfl, hread⟩ := h
  change quotedName? (body ++ (':' : UInt8) :: rest) = _
  simp only [quotedName?, hread]
  rfl

lemma Quotes.opening_object :
    opening? (('\x7b' : UInt8) :: (s ++ (':' : UInt8) :: rest)) =
      some (.inside (.object [] (.text t)) rest) := by
  obtain ⟨body, rfl, hread⟩ := h
  change (quotedName? (body ++ (':' : UInt8) :: rest)).map _ = _
  simp only [quotedName?, hread]
  rfl

end Quotes

/-! ### Values -/

namespace Value

mutual

/-- The compact text of a value. -/
def text : Value → Text
  | null => "null"
  | bool true => "true"
  | bool false => "false"
  | number spelling => spelling
  | string t => plain t
  | array items => "[" ++ Text.join "," (texts items) ++ "]"
  | object members => "\x7b" ++ Text.join "," (memberTexts members) ++ "\x7d"

def texts : List Value → List Text
  | [] => []
  | v :: rest => v.text :: texts rest

def memberTexts : List (Name × Value) → List Text
  | [] => []
  | (name, v) :: rest => (plain name.toText ++ ":" ++ v.text) :: memberTexts rest

end

/-- The values that have a text of their own: numbers are numbers, and names are plain texts. -/
inductive Writable : Value → Prop
  | null : Writable null
  | bool (b : Bool) : Writable (bool b)
  | number {spelling : Text} (bytes : ∀ b ∈ spelling, isNumberByte b = true)
      (valid : isNumber spelling = true) : Writable (number spelling)
  | string (t : Text) : Writable (string t)
  | array {items : List Value} (hitems : ∀ v ∈ items, Writable v) : Writable (array items)
  | object {members : List (Name × Value)} (names : ∀ m ∈ members, ∃ t, m.1 = .text t)
      (hmembers : ∀ m ∈ members, Writable m.2) : Writable (object members)

lemma cleanAll_eq_true {items : List Value} (h : ∀ v ∈ items, v.clean = true) :
    cleanAll items = true := by
  induction items with
  | nil => rfl
  | cons v rest ih =>
    obtain ⟨hv, hrest⟩ := List.forall_mem_cons.mp h
    rw [cleanAll, hv, ih hrest]
    rfl

lemma cleanMembers_eq_true {members : List (Name × Value)}
    (names : ∀ m ∈ members, ∃ t, m.1 = .text t) (h : ∀ m ∈ members, m.2.clean = true) :
    cleanMembers members = true := by
  induction members with
  | nil => rfl
  | cons m rest ih =>
    obtain ⟨hname, hnames⟩ := List.forall_mem_cons.mp names
    obtain ⟨hv, hrest⟩ := List.forall_mem_cons.mp h
    obtain ⟨_, v⟩ := m
    obtain ⟨t, rfl⟩ := hname
    have hv : v.clean = true := hv
    simp [cleanMembers, hv, ih hnames hrest]

lemma Writable.clean {v : Value} (h : v.Writable) : v.clean = true := by
  induction h with
  | null => rfl
  | bool b => rfl
  | number bytes valid => rfl
  | string t => rfl
  | array hitems ih => exact cleanAll_eq_true ih
  | object names hmembers ih => exact cleanMembers_eq_true names ih

end Value

/-- Whether a text cannot continue a number. -/
def Stops (t : Text) : Prop := ∀ b ∈ t.head?, isNumberByte b = false

lemma skipSpace_cons {a : UInt8} {t : Text} (h : isSpace a = false) :
    skipSpace (a :: t) = a :: t := by
  simp [skipSpace, h]

lemma takeWhile_number {spelling rest : Text} (bytes : ∀ b ∈ spelling, isNumberByte b = true)
    (hrest : Stops rest) :
    (spelling ++ rest).takeWhile isNumberByte = spelling ∧
      (spelling ++ rest).dropWhile isNumberByte = rest := by
  rw [List.takeWhile_append_of_pos bytes, List.dropWhile_append_of_pos bytes]
  cases rest with
  | nil => simp
  | cons b rest =>
    have hb : isNumberByte b = false := hrest b rfl
    simp [hb]

lemma scalar_number {spelling rest : Text} (bytes : ∀ b ∈ spelling, isNumberByte b = true)
    (valid : isNumber spelling = true) (hrest : Stops rest) :
    scalar? (spelling ++ rest) = some (.number spelling, rest) := by
  obtain ⟨htake, hdrop⟩ := takeWhile_number bytes hrest
  cases spelling with
  | nil => cases valid
  | cons a more =>
    have ha : isNumberByte a = true := bytes a List.mem_cons_self
    have hother : ∀ c, isNumberByte c = false → a ≠ c := by
      rintro c hc rfl
      rw [ha] at hc
      cases hc
    simp only [List.cons_append] at htake hdrop ⊢
    simp only [scalar?, if_neg (hother '"' rfl), if_neg (hother 'n' rfl), if_neg (hother 't' rfl),
      if_neg (hother 'f' rfl), htake, hdrop, valid, if_true]

/-- A value that is neither array nor object is read at once. -/
lemma opening_of_scalar {a : UInt8} {t rest : Text} {v : Value} (hspace : isSpace a = false)
    (harray : a ≠ '[') (hobject : a ≠ '\x7b') (h : scalar? (a :: t) = some (v, rest)) :
    opening? (a :: t) = some (.whole v rest) := by
  simp only [opening?, skipSpace_cons hspace, if_neg harray, if_neg hobject, h, Option.map_some]

/-! ### The machine -/

/-- The machine when a value has been read. -/
def resume (rounds room : Nat) (stack : List Frame) (v : Value) (rest : Text) :
    Option (Value × Text) :=
  match close room stack v rest with
  | none => none
  | some (.part room stack rest) => run rounds room stack rest
  | some (.finished v rest) => some (v, rest)

lemma run_whole {rounds room : Nat} {stack : List Frame} {t rest : Text} {v : Value}
    (h : opening? t = some (.whole v rest)) :
    run (rounds + 1) room stack t = resume rounds room stack v rest := by
  rw [run, h]
  rfl

lemma run_inside {rounds room : Nat} {stack : List Frame} {t rest : Text} {frame : Frame}
    (h : opening? t = some (.inside frame rest)) :
    run (rounds + 1) (room + 1) stack t = run rounds room (frame :: stack) rest := by
  rw [run, h]

/-- A text spells a value if its first byte shows where the value begins, and if it takes some
rounds, no more than the text is long, to hand the value on. -/
structure Spells (t : Text) (v : Value) : Prop where
  begins : ∃ a rest, t = a :: rest ∧ isSpace a = false ∧ a ≠ ']'
  handed : ∃ m ≤ t.length, ∀ rounds room stack rest, v.depth ≤ room → Stops rest →
    run (m + rounds) room stack (t ++ rest) = resume rounds room stack v rest

lemma Spells.of_opening {t : Text} {v : Value}
    (hbegins : ∃ a rest, t = a :: rest ∧ isSpace a = false ∧ a ≠ ']')
    (h : ∀ rest, Stops rest → opening? (t ++ rest) = some (.whole v rest)) : Spells t v := by
  refine ⟨hbegins, 1, ?_, fun rounds room stack rest _ hrest => ?_⟩
  · obtain ⟨a, more, rfl, -⟩ := hbegins
    exact Nat.le_add_left 1 _
  · rw [Nat.add_comm]
    exact run_whole (h rest hrest)

inductive SpellsMember : Text → Name × Value → Prop
  | intro {s t w : Text} {v : Value} (name : Quotes s t) (value : Spells w v) :
    SpellsMember (s ++ ":" ++ w) (.text t, v)

section Frames

variable {rounds room : Nat} {stack : List Frame} {v : Value} {rest : Text}

lemma resume_array_end {done : List Value} :
    resume rounds room (.array done :: stack) v ((']' : UInt8) :: rest) =
      resume rounds (room + 1) stack (.array (done.reverse ++ [v])) rest := by
  rw [← List.reverse_cons]
  rfl

lemma resume_array_next {done : List Value} :
    resume rounds room (.array done :: stack) v ((',' : UInt8) :: rest) =
      run rounds room (.array (v :: done) :: stack) rest := rfl

lemma resume_object_end {done : List (Name × Value)} {name : Name} :
    resume rounds room (.object done name :: stack) v (('\x7d' : UInt8) :: rest) =
      resume rounds (room + 1) stack (.object (done.reverse ++ [(name, v)])) rest := by
  rw [← List.reverse_cons]
  rfl

lemma resume_object_next {done : List (Name × Value)} {name : Name} {s t : Text}
    (h : Quotes s t) :
    resume rounds room (.object done name :: stack) v
        ((',' : UInt8) :: (s ++ (':' : UInt8) :: rest)) =
      run rounds room (.object ((name, v) :: done) (.text t) :: stack) rest := by
  have hclose : close room (.object done name :: stack) v
      ((',' : UInt8) :: (s ++ (':' : UInt8) :: rest)) =
      (laterName? (s ++ (':' : UInt8) :: rest)).map fun found =>
        .part room (.object ((name, v) :: done) found.1 :: stack) found.2 := rfl
  rw [resume, hclose, h.laterName]
  rfl

end Frames

lemma stops_eachAfter (ts : List Text) (rest : Text) {b : UInt8} (hb : isNumberByte b = false) :
    Stops (Text.eachAfter "," ts ++ b :: rest) := by
  cases ts with
  | nil =>
    rintro _ ⟨⟩
    exact hb
  | cons t ts =>
    rintro _ ⟨⟩
    decide

/-- The later items of an array and its bracket. -/
lemma resume_items {ts : List Text} {items : List Value} (h : List.Forall₂ Spells ts items) :
    ∃ m ≤ (Text.eachAfter "," ts).length, ∀ rounds room stack done x rest,
      (∀ v ∈ items, v.depth ≤ room) →
        resume (m + rounds) room (.array done :: stack) x
          (Text.eachAfter "," ts ++ (']' : UInt8) :: rest) =
        resume rounds (room + 1) stack (.array (done.reverse ++ x :: items)) rest := by
  -- The rounds are those of the items: separators and the bracket take none of their own.
  induction h with
  | nil =>
    refine ⟨0, Nat.zero_le _, fun rounds room stack done x rest _ => ?_⟩
    rw [Nat.zero_add]
    exact resume_array_end
  | @cons t y ts ys hy _ ih =>
    obtain ⟨m, hm, hread⟩ := hy.handed
    obtain ⟨k, hk, hlater⟩ := ih
    have htext : Text.eachAfter "," (t :: ts) =
        (',' : UInt8) :: (t ++ Text.eachAfter "," ts) := rfl
    refine ⟨m + k, ?_, fun rounds room stack done x rest hdepth => ?_⟩
    · rw [htext, List.length_cons, List.length_append]
      omega
    · obtain ⟨hfirst, hothers⟩ := List.forall_mem_cons.mp hdepth
      have hstops := stops_eachAfter ts rest (by decide : isNumberByte ']' = false)
      rw [htext, List.cons_append, resume_array_next, List.append_assoc, Nat.add_assoc,
        hread _ _ _ _ hfirst hstops, hlater _ _ _ _ _ _ hothers]
      simp

/-- The later members of an object and its brace. -/
lemma resume_members {ts : List Text} {members : List (Name × Value)}
    (h : List.Forall₂ SpellsMember ts members) :
    ∃ m ≤ (Text.eachAfter "," ts).length,
      ∀ rounds room stack done name x rest, (∀ m ∈ members, m.2.depth ≤ room) →
        resume (m + rounds) room (.object done name :: stack) x
          (Text.eachAfter "," ts ++ ('\x7d' : UInt8) :: rest) =
        resume rounds (room + 1) stack (.object (done.reverse ++ (name, x) :: members)) rest := by
  induction h with
  | nil =>
    refine ⟨0, Nat.zero_le _, fun rounds room stack done name x rest _ => ?_⟩
    rw [Nat.zero_add]
    exact resume_object_end
  | @cons _ _ ts others hfirst _ ih =>
    obtain @⟨s, t, w, y, hname, hvalue⟩ := hfirst
    obtain ⟨m, hm, hread⟩ := hvalue.handed
    obtain ⟨k, hk, hlater⟩ := ih
    have htext : Text.eachAfter "," ((s ++ ":" ++ w) :: ts) =
        (',' : UInt8) :: (s ++ ":" ++ w ++ Text.eachAfter "," ts) := rfl
    refine ⟨m + k, ?_, fun rounds room stack done name x rest hdepth => ?_⟩
    · simp only [htext, List.length_cons, List.length_append]
      omega
    · obtain ⟨hfirst, hothers⟩ := List.forall_mem_cons.mp hdepth
      have hstops := stops_eachAfter ts rest (by decide : isNumberByte '\x7d' = false)
      have hcolon : ∀ more : Text, (":" : Text) ++ more = (':' : UInt8) :: more := fun _ => rfl
      rw [htext]
      simp only [List.append_assoc, List.cons_append, hcolon]
      rw [resume_object_next hname, Nat.add_assoc, hread _ _ _ _ hfirst hstops,
        hlater _ _ _ _ _ _ _ hothers]
      simp

lemma depth_le_depthAll {items : List Value} {v : Value} (hv : v ∈ items) :
    v.depth ≤ Value.depthAll items := by
  induction items with
  | nil => cases hv
  | cons x rest ih =>
    rw [Value.depthAll]
    rcases List.mem_cons.mp hv with rfl | hv
    · exact Nat.le_max_left _ _
    · exact Nat.le_trans (ih hv) (Nat.le_max_right _ _)

lemma depth_le_depthMembers {members : List (Name × Value)} {m : Name × Value}
    (hm : m ∈ members) : m.2.depth ≤ Value.depthMembers members := by
  induction members with
  | nil => cases hm
  | cons x rest ih =>
    rw [Value.depthMembers]
    rcases List.mem_cons.mp hm with rfl | hm
    · exact Nat.le_max_left _ _
    · exact Nat.le_trans (ih hm) (Nat.le_max_right _ _)

lemma opening_array {t : Text} {x : Value} (hx : Spells t x) (rest : Text) :
    opening? (('[' : UInt8) :: (t ++ rest)) = some (.inside (.array []) (t ++ rest)) := by
  obtain ⟨a, more, hfirst, hspace, ha⟩ := hx.begins
  have hbracket : ∀ t, skipSpace (('[' : UInt8) :: t) = ('[' : UInt8) :: t :=
    fun t => skipSpace_cons (by decide)
  rw [hfirst, List.cons_append]
  simp only [opening?, hbracket, if_true, skipSpace_cons hspace, if_neg ha]

namespace Spells

/-- A value with others in it is handed on: it is entered, the first value in it is read, and the
later ones complete it. -/
lemma of_parts {t w : Text} {v x : Value} {frame : Frame} {k : Nat} (opener later : Text)
    (hbegins : ∃ a rest, t = a :: rest ∧ isSpace a = false ∧ a ≠ ']')
    (hx : Spells w x) (hdepth : x.depth < v.depth) (hk : k ≤ later.length) (hopener : opener ≠ [])
    (htext : t = opener ++ (w ++ later))
    (hopen : ∀ rest, opening? (opener ++ (w ++ rest)) = some (.inside frame (w ++ rest)))
    (hstops : ∀ rest, Stops (later ++ rest))
    (hlater : ∀ rounds room stack rest, v.depth ≤ room + 1 →
      resume (k + rounds) room (frame :: stack) x (later ++ rest) =
        resume rounds (room + 1) stack v rest) :
    Spells t v := by
  obtain ⟨m, hm, hread⟩ := hx.handed
  refine ⟨hbegins, 1 + (m + k), ?_, fun rounds room stack rest hroom _ => ?_⟩
  · have hpos := List.length_pos_iff.mpr hopener
    rw [htext, List.length_append, List.length_append]
    omega
  · obtain ⟨inner, rfl⟩ : ∃ inner, room = inner + 1 := ⟨room - 1, by omega⟩
    have hrounds : 1 + (m + k) + rounds = m + (k + rounds) + 1 := by omega
    rw [htext, List.append_assoc, List.append_assoc, hrounds, run_inside (hopen _),
      hread _ _ _ _ (by omega) (hstops rest), hlater _ _ _ _ hroom]

lemma null : Spells "null" .null :=
  .of_opening ⟨_, _, rfl, by decide, by decide⟩ fun _ _ => rfl

lemma bool (b : Bool) : Spells (Value.bool b).text (.bool b) := by
  cases b <;> exact .of_opening ⟨_, _, rfl, by decide, by decide⟩ fun _ _ => rfl

lemma number {spelling : Text} (bytes : ∀ b ∈ spelling, isNumberByte b = true)
    (valid : isNumber spelling = true) : Spells spelling (.number spelling) := by
  cases spelling with
  | nil => cases valid
  | cons a more =>
    have ha : isNumberByte a = true := bytes a List.mem_cons_self
    have hother : ∀ c, isNumberByte c = false → a ≠ c := by
      rintro c hc rfl
      rw [ha] at hc
      cases hc
    have hspace : isSpace a = false := by
      simp [isSpace, hother ' ' rfl, hother '\n' rfl, hother '\t' rfl, hother '\r' rfl]
    refine .of_opening ⟨a, more, rfl, hspace, hother ']' rfl⟩ fun rest hrest => ?_
    exact opening_of_scalar hspace (hother '[' rfl) (hother '\x7b' rfl)
      (scalar_number bytes valid hrest)

lemma string {s t : Text} (h : Quotes s t) : Spells s (.string t) := by
  refine .of_opening ?_ fun rest _ => ?_
  · obtain ⟨body, rfl, -⟩ := h
    exact ⟨_, _, rfl, by decide, by decide⟩
  · have hscalar := h.scalar rest
    obtain ⟨body, rfl, -⟩ := h
    exact opening_of_scalar (by decide) (by decide) (by decide) hscalar

lemma array {ts : List Text} {items : List Value} (h : List.Forall₂ Spells ts items) :
    Spells ("[" ++ Text.join "," ts ++ "]") (.array items) := by
  have hbegins : ∃ a rest, ("[" ++ Text.join "," ts ++ "]" : Text) = a :: rest ∧
      isSpace a = false ∧ a ≠ ']' := ⟨_, _, rfl, by decide, by decide⟩
  cases h with
  | nil => exact .of_opening hbegins fun rest _ => rfl
  | @cons t x ts ys hx hys =>
    obtain ⟨k, hk, hlater⟩ := resume_items hys
    have hdepth : ∀ v ∈ x :: ys, v.depth < (Value.array (x :: ys)).depth := by
      intro v hv
      have hle := depth_le_depthAll hv
      rw [Value.depth]
      omega
    obtain ⟨hfirst, hothers⟩ := List.forall_mem_cons.mp hdepth
    have hlength : k ≤ (Text.eachAfter "," ts ++ "]").length := by
      rw [List.length_append]
      omega
    refine .of_parts "[" _ hbegins hx hfirst hlength (by decide) ?_ (opening_array hx) ?_ ?_
    · rw [Text.join_cons]
      simp only [List.append_assoc]
    · intro rest
      rw [List.append_assoc]
      exact stops_eachAfter ts rest (by decide : isNumberByte ']' = false)
    · intro rounds room stack rest hroom
      have hdepths : ∀ v ∈ ys, v.depth ≤ room := fun v hv => by
        have := hothers v hv
        omega
      rw [List.append_assoc]
      exact hlater rounds room stack [] x rest hdepths

lemma object {ts : List Text} {members : List (Name × Value)}
    (h : List.Forall₂ SpellsMember ts members) :
    Spells ("\x7b" ++ Text.join "," ts ++ "\x7d") (.object members) := by
  have hbegins : ∃ a rest, ("\x7b" ++ Text.join "," ts ++ "\x7d" : Text) = a :: rest ∧
      isSpace a = false ∧ a ≠ ']' := ⟨_, _, rfl, by decide, by decide⟩
  cases h with
  | nil => exact .of_opening hbegins fun rest _ => rfl
  | @cons _ _ ts others hmember hmembers =>
    obtain @⟨s, t, w, x, hname, hx⟩ := hmember
    obtain ⟨k, hk, hlater⟩ := resume_members hmembers
    have hdepth : ∀ m ∈ (Name.text t, x) :: others,
        m.2.depth < (Value.object ((.text t, x) :: others)).depth := by
      intro m hm
      have hle := depth_le_depthMembers hm
      rw [Value.depth]
      omega
    obtain ⟨hfirst, hrest⟩ := List.forall_mem_cons.mp hdepth
    have hlength : k ≤ (Text.eachAfter "," ts ++ "\x7d").length := by
      rw [List.length_append]
      omega
    have hopen : ∀ rest, opening? (("\x7b" ++ (s ++ ":") : Text) ++ (w ++ rest)) =
        some (.inside (.object [] (.text t)) (w ++ rest)) := by
      intro rest
      simp only [List.append_assoc]
      exact hname.opening_object (w ++ rest)
    refine .of_parts ("\x7b" ++ (s ++ ":")) _ hbegins hx hfirst hlength (List.cons_ne_nil _ _) ?_
      hopen ?_ ?_
    · rw [Text.join_cons]
      simp only [List.append_assoc]
    · intro rest
      rw [List.append_assoc]
      exact stops_eachAfter ts rest (by decide : isNumberByte '\x7d' = false)
    · intro rounds room stack rest hroom
      have hdepths : ∀ m ∈ others, m.2.depth ≤ room := fun m hm => by
        have := hrest m hm
        omega
      rw [List.append_assoc]
      exact hlater rounds room stack [] (.text t) x rest hdepths

/-- A text that spells a value is read as that value, if it is not nested too deeply. -/
theorem document {t : Text} {v : Value} (h : Spells t v) (hdepth : v.depth ≤ maxOpen) :
    document? t = some v := by
  obtain ⟨m, hm, hread⟩ := h.handed
  have hstops : Stops [] := by
    rintro _ ⟨⟩
  have hrun := hread (t.length - m) maxOpen [] [] hdepth hstops
  have hrounds : m + (t.length - m) = t.length := by omega
  rw [hrounds, List.append_nil] at hrun
  have hresult : read? t = some (v, []) := hrun
  rw [document?, hresult]
  rfl

end Spells

lemma spells_texts {items : List Value} (h : ∀ v ∈ items, Spells v.text v) :
    List.Forall₂ Spells (Value.texts items) items := by
  induction items with
  | nil => exact .nil
  | cons v rest ih =>
    obtain ⟨hv, hrest⟩ := List.forall_mem_cons.mp h
    exact .cons hv (ih hrest)

lemma spells_memberTexts {members : List (Name × Value)}
    (names : ∀ m ∈ members, ∃ t, m.1 = .text t) (h : ∀ m ∈ members, Spells m.2.text m.2) :
    List.Forall₂ SpellsMember (Value.memberTexts members) members := by
  induction members with
  | nil => exact .nil
  | cons m rest ih =>
    obtain ⟨hname, hnames⟩ := List.forall_mem_cons.mp names
    obtain ⟨hv, hrest⟩ := List.forall_mem_cons.mp h
    obtain ⟨_, v⟩ := m
    obtain ⟨t, rfl⟩ := hname
    exact .cons (.intro (quotes_plain t) hv) (ih hnames hrest)

/-- Every value is spelled by its text. -/
theorem spells_text {v : Value} (h : v.Writable) : Spells v.text v := by
  induction h with
  | null => exact .null
  | bool b => exact .bool b
  | number bytes valid => exact .number bytes valid
  | string t => exact .string (quotes_plain t)
  | array hitems ih => exact .array (spells_texts ih)
  | object names hmembers ih => exact .object (spells_memberTexts names ih)

/-- The text of a value is read as that value, if it is not nested too deeply. -/
theorem document_text {v : Value} (h : v.Writable) (hdepth : v.depth ≤ maxOpen) :
    document? v.text = some v :=
  (spells_text h).document hdepth

end SheetFormula.Json
