import SheetFormula.Proofs.Formula.Term
import SheetFormula.Proofs.Text

/-!
# Reading formulas

A reader for the grammar of formulas, as a machine with a stack that takes one token after the
other. The open frames of the stack are left operands that wait for their right one and calls that
wait for their closing parenthesis. A left operand waits as long as something can follow that binds
more tightly. The reader finds the term of a formula, and so a text is a formula of one term at
most.
-/

namespace SheetFormula.Formula

/-! ### Tokens -/

inductive Token where
  | atom (t : Text)
  | opening
  | closing
  | comma
  | op (o : Operator)
deriving DecidableEq, Repr

namespace Token

def text : Token → Text
  | atom t => t
  | opening => "("
  | closing => ")"
  | comma => ", "
  | op o => o.text

/-- The tokens that are no atoms. -/
def delimiters : List Token :=
  [opening, closing, comma, op .range, op .times, op .divide, op .plus, op .minus, op .greater,
   op .less, op .atLeast, op .atMost]

/-- The token that is no atom at the start of a text. -/
def delimiter? (t : Text) : Option Token := delimiters.find? fun d => Text.startsWith d.text t

/-- The atom that has been read, in reverse, if there is one. -/
def pending (word : Text) : List Token := if word.isEmpty then [] else [atom word.reverse]

/-- The tokens of a text: `skip` bytes belong to the token before, `word` is the atom so far, in
reverse. -/
def scanFrom : (skip : Nat) → (word : Text) → Text → Option (List Token)
  | _, word, [] => some (pending word)
  | skip + 1, word, _ :: rest => scanFrom skip word rest
  | 0, word, b :: rest =>
    if isAtomByte b then scanFrom 0 (b :: word) rest
    else
      match delimiter? (b :: rest) with
      | some d => (scanFrom (d.text.length - 1) [] rest).map (pending word ++ d :: ·)
      | none => none

def scan (t : Text) : Option (List Token) := scanFrom 0 [] t

/-- A text that an atom before it does not reach into. -/
def Stops (t : Text) : Prop := ∀ b ∈ t.head?, isAtomByte b = false

@[simp] lemma stops_nil : Stops [] := by simp [Stops]

/-- No token is the start of another one, so a delimiter is found again. -/
lemma delimiter_text {d : Token} (h : ∀ t, d ≠ atom t) (rest : Text) :
    delimiter? (d.text ++ rest) = some d := by
  cases d with
  | atom t => exact absurd rfl (h t)
  | op o => cases o <;> rfl
  | _ => rfl

lemma delimiter_head {d : Token} (h : ∀ t, d ≠ atom t) :
    ∃ b more, d.text = b :: more ∧ isAtomByte b = false := by
  cases d with
  | atom t => exact absurd rfl (h t)
  | op o => cases o <;> exact ⟨_, _, rfl, rfl⟩
  | _ => exact ⟨_, _, rfl, rfl⟩

lemma stops_delimiter {d : Token} (h : ∀ t, d ≠ atom t) (rest : Text) : Stops (d.text ++ rest) := by
  obtain ⟨b, more, hd, hb⟩ := delimiter_head h
  simp [Stops, hd, hb]

lemma scanFrom_skip (done rest : Text) : scanFrom done.length [] (done ++ rest) = scan rest := by
  induction done with
  | nil => rfl
  | cons b more ih => exact ih

lemma scanFrom_atom {t word rest : Text} (h : ∀ b ∈ t, isAtomByte b) :
    scanFrom 0 word (t ++ rest) = scanFrom 0 (t.reverse ++ word) rest := by
  induction t generalizing word with
  | nil => rfl
  | cons b more ih =>
    obtain ⟨hb, hmore⟩ := List.forall_mem_cons.mp h
    rw [List.cons_append, scanFrom, if_pos hb, ih hmore]
    simp

/-- Where an atom ends, the rest is scanned on its own. -/
lemma scanFrom_word {word rest : Text} (h : Stops rest) :
    scanFrom 0 word rest = (scan rest).map (pending word ++ ·) := by
  cases rest with
  | nil => simp [scan, scanFrom, pending]
  | cons b more =>
    have hb : ¬ isAtomByte b = true := by simpa [Stops] using h
    simp only [scan, scanFrom, if_neg hb]
    cases delimiter? (b :: more) with
    | none => rfl
    | some d => simp [pending, Function.comp_def]

lemma scan_atom {t rest : Text} (ht : IsAtom t) (h : Stops rest) :
    scan (t ++ rest) = (scan rest).map (atom t :: ·) := by
  have hword : pending t.reverse = [atom t] := by simp [pending, ht.1]
  rw [scan, scanFrom_atom ht.2, List.append_nil, scanFrom_word h, hword]
  rfl

lemma scan_delimiter {d : Token} (h : ∀ t, d ≠ atom t) (rest : Text) :
    scan (d.text ++ rest) = (scan rest).map (d :: ·) := by
  obtain ⟨b, more, hd, hb⟩ := delimiter_head h
  have hfound := delimiter_text h rest
  rw [hd, List.cons_append] at hfound ⊢
  have hb : ¬ isAtomByte b = true := by simp [hb]
  rw [scan, scanFrom, if_neg hb, hfound]
  simp only [hd, List.length_cons, Nat.add_sub_cancel, scanFrom_skip]
  rfl

lemma delimiter_sound {t : Text} {d : Token} (h : delimiter? t = some d) :
    (∀ a, d ≠ atom a) ∧ d.text <+: t := by
  unfold delimiter? at h
  constructor
  · rintro a rfl
    simpa [delimiters] using List.mem_of_find?_eq_some h
  · have hstart := List.find?_some h
    exact List.isPrefixOf_iff_prefix.mp hstart

lemma pending_sound {word : Text} (h : ∀ b ∈ word, isAtomByte b) :
    (pending word).flatMap text = word.reverse ∧ ∀ a, atom a ∈ pending word → IsAtom a := by
  cases word with
  | nil => simp [pending]
  | cons b more =>
    refine ⟨by simp [pending, text], ?_⟩
    intro a ha
    obtain rfl : a = (b :: more).reverse := by simpa [pending] using ha
    exact ⟨by simp, fun c hc => h c (List.mem_reverse.mp hc)⟩

/-- Scanning loses no byte, and every atom it finds is one. -/
lemma scanFrom_sound {skip : Nat} {word t : Text} {ts : List Token}
    (hword : ∀ b ∈ word, isAtomByte b) (h : scanFrom skip word t = some ts) :
    ts.flatMap text = word.reverse ++ t.drop skip ∧ ∀ a, atom a ∈ ts → IsAtom a := by
  induction t generalizing skip word ts with
  | nil =>
    obtain rfl : pending word = ts := by
      cases skip <;> exact Option.some.inj h
    simpa using pending_sound hword
  | cons b rest ih =>
    cases skip with
    | succ skip => exact ih hword h
    | zero =>
      by_cases hb : isAtomByte b = true
      · rw [scanFrom, if_pos hb] at h
        simpa using ih (List.forall_mem_cons.mpr ⟨hb, hword⟩) h
      · rw [scanFrom, if_neg hb] at h
        cases hd : delimiter? (b :: rest) with
        | none => simp [hd] at h
        | some d =>
          simp only [hd, Option.map_eq_some_iff] at h
          obtain ⟨us, hus, rfl⟩ := h
          obtain ⟨hbytes, hatoms⟩ := ih (by simp) hus
          obtain ⟨hpending, hlast⟩ := pending_sound hword
          obtain ⟨hdelimiter, more, hmore⟩ := delimiter_sound hd
          have hrest : d.text ++ rest.drop (d.text.length - 1) = b :: rest := by
            obtain ⟨c, body, hc, -⟩ := delimiter_head hdelimiter
            rw [hc, List.cons_append] at hmore
            obtain ⟨rfl, rfl⟩ := List.cons.inj hmore
            simp [hc]
          constructor
          · simp [List.flatMap_append, hpending, hbytes, hrest]
          · intro a ha
            rcases List.mem_append.mp ha with ha | ha
            · exact hlast a ha
            · rcases List.mem_cons.mp ha with rfl | ha
              · exact absurd rfl (hdelimiter a)
              · exact hatoms a ha

lemma scan_sound {t : Text} {ts : List Token} (h : scan t = some ts) :
    ts.flatMap text = t ∧ ∀ a, atom a ∈ ts → IsAtom a := by
  simpa using scanFrom_sound (by simp) h

/-- Whether no two atoms stand next to each other. -/
def Apart : List Token → Prop
  | [] => True
  | atom _ :: atom _ :: _ => False
  | _ :: rest => Apart rest

lemma apart_delimiter {d : Token} (hd : ∀ a, d ≠ atom a) {ts : List Token} :
    Apart (d :: ts) ↔ Apart ts := by
  cases d with
  | atom t => exact absurd rfl (hd t)
  | _ => simp [Apart]

lemma apart_append {ss ts : List Token} {d : Token} (hd : ∀ a, d ≠ atom a) (hs : Apart ss)
    (ht : Apart ts) : Apart (ss ++ d :: ts) := by
  induction ss with
  | nil => exact (apart_delimiter hd).mpr ht
  | cons s rest ih =>
    cases s with
    | atom t =>
      cases rest with
      | nil =>
        cases d with
        | atom u => exact absurd rfl (hd u)
        | _ => simpa [Apart] using ht
      | cons r rest =>
        cases r with
        | atom u => exact hs.elim
        | _ => exact ih hs
    | _ => exact ih hs

/-- Tokens are found again in their text if atoms are kept apart. -/
lemma scan_text {ts : List Token} (hatoms : ∀ a, atom a ∈ ts → IsAtom a) (h : Apart ts) :
    scan (ts.flatMap text) = some ts := by
  induction ts with
  | nil => rfl
  | cons d rest ih =>
    have hrest : ∀ a, atom a ∈ rest → IsAtom a := fun a ha => hatoms a (List.mem_cons_of_mem d ha)
    rw [List.flatMap_cons]
    cases d with
    | atom t =>
      have ht : IsAtom t := hatoms t List.mem_cons_self
      cases rest with
      | nil =>
        rw [List.flatMap_nil, text, scan_atom ht stops_nil]
        rfl
      | cons r rest =>
        have hr : ∀ a, r ≠ atom a := by
          rintro a rfl
          exact h
        have happart : Apart (r :: rest) := by
          cases r with
          | atom a => exact absurd rfl (hr a)
          | _ => exact h
        rw [text, scan_atom ht (by rw [List.flatMap_cons]; exact stops_delimiter hr _),
          ih hrest happart]
        rfl
    | _ =>
      have happart : Apart rest := h
      rw [scan_delimiter (by simp), ih hrest happart]
      rfl

end Token

/-! ### Tokens of terms -/

namespace Term

mutual

/-- The tokens of a term in the order of its text. -/
def tokens : Term → List Token
  | atom t => [.atom t]
  | call f xs => f.tokens ++ .opening :: (argumentTokens xs ++ [.closing])
  | infixed op l r => l.tokens ++ .op op :: r.tokens

def argumentTokens : List Term → List Token
  | [] => []
  | x :: rest => x.tokens ++ laterTokens rest

/-- The tokens of arguments that follow another one. -/
def laterTokens : List Term → List Token
  | [] => []
  | x :: rest => .comma :: (x.tokens ++ laterTokens rest)

end

lemma text_eq_tokens (u : Term) : u.text = u.tokens.flatMap Token.text := by
  induction u using partsInduction with
  | atom t => simp [text, tokens, Token.text]
  | infixed op l r ihl ihr => simp [text, tokens, Token.text, ihl, ihr]
  | call f xs ihf ihs =>
    have hlater : ∀ ys : List Term, (∀ y ∈ ys, y.text = y.tokens.flatMap Token.text) →
        Text.eachAfter ", " (ys.map text) = (laterTokens ys).flatMap Token.text := by
      intro ys hys
      induction ys with
      | nil => rfl
      | cons y rest ih =>
        obtain ⟨hy, hrest⟩ := List.forall_mem_cons.mp hys
        have htail := ih hrest
        simp only [Text.eachAfter] at htail
        simp [Text.eachAfter, laterTokens, Token.text, hy, htail]
    cases xs with
    | nil => simp [text, tokens, argumentTokens, Token.text, ihf]
    | cons x rest =>
      obtain ⟨hx, hrest⟩ := List.forall_mem_cons.mp ihs
      simp [text, tokens, argumentTokens, Token.text, ihf, hx, Text.join_cons, hlater rest hrest]

lemma apart_tokens (u : Term) : Token.Apart u.tokens := by
  induction u using partsInduction with
  | atom t => trivial
  | infixed op l r ihl ihr => exact Token.apart_append (by simp) ihl ihr
  | call f xs ihf ihs =>
    have hlater : ∀ ys : List Term, (∀ y ∈ ys, Token.Apart y.tokens) → ∀ ts, Token.Apart ts →
        Token.Apart (ts ++ laterTokens ys) := by
      intro ys hys
      induction ys with
      | nil => simp [laterTokens]
      | cons y rest ih =>
        intro ts hts
        obtain ⟨hy, hrest⟩ := List.forall_mem_cons.mp hys
        exact Token.apart_append (by simp) hts (ih hrest y.tokens hy)
    refine Token.apart_append (by simp) ihf (Token.apart_append (by simp) ?_ trivial)
    cases xs with
    | nil => trivial
    | cons x rest =>
      obtain ⟨hx, hrest⟩ := List.forall_mem_cons.mp ihs
      exact hlater rest hrest x.tokens hx

lemma atom_mem_laterTokens {a : Text} {xs : List Term} :
    .atom a ∈ laterTokens xs ↔ ∃ x ∈ xs, .atom a ∈ x.tokens := by
  induction xs with
  | nil => simp [laterTokens]
  | cons x rest ih => simp [laterTokens, ih]

lemma atom_mem_argumentTokens {a : Text} {xs : List Term} :
    .atom a ∈ argumentTokens xs ↔ ∃ x ∈ xs, .atom a ∈ x.tokens := by
  cases xs with
  | nil => simp [argumentTokens]
  | cons x rest => simp [argumentTokens, atom_mem_laterTokens]

lemma spelled_iff {u : Term} : u.Spelled ↔ ∀ a, .atom a ∈ u.tokens → IsAtom a := by
  induction u using partsInduction with
  | atom t => simp [Spelled, tokens]
  | infixed op l r ihl ihr => simp [Spelled, tokens, ihl, ihr, or_imp, forall_and]
  | call f xs ihf ihs =>
    have hargs : (∀ x ∈ xs, x.Spelled) ↔ ∀ a, .atom a ∈ argumentTokens xs → IsAtom a := by
      constructor
      · intro h a ha
        obtain ⟨x, hx, ha⟩ := atom_mem_argumentTokens.mp ha
        exact (ihs x hx).mp (h x hx) a ha
      · intro h x hx
        exact (ihs x hx).mpr fun a ha => h a (atom_mem_argumentTokens.mpr ⟨x, hx, ha⟩)
    simp [Spelled, tokens, ihf, hargs, or_imp, forall_and]

/-- The text of a term scans to its tokens. -/
lemma scan_text {u : Term} (h : u.Spelled) : Token.scan u.text = some u.tokens := by
  rw [text_eq_tokens]
  exact Token.scan_text (spelled_iff.mp h) (apart_tokens u)

end Term

/-! ### The machine -/

/-- A part of a formula that has been read and waits for more. -/
inductive Frame where
  /-- A left operand and its operator. -/
  | operand (left : Term) (op : Operator)
  /-- A callee and the arguments so far. -/
  | arguments (callee : Term) (done : List Term)
deriving Repr

/-- The stack of a reader, innermost frame first, and the operand that was read last, unless an
operand is still to come. -/
structure Reader where
  stack : List Frame
  current : Option Term
deriving Repr

/-- Gives waiting left operands of at most the given level their right one. -/
def settle (level : Nat) : List Frame → Term → List Frame × Term
  | .operand left op :: stack, e =>
    if op.level ≤ level then settle level stack (.infixed op left e)
    else (.operand left op :: stack, e)
  | stack, e => (stack, e)

namespace Reader

/-- The reader after one more token. -/
def step : Reader → Token → Option Reader
  | ⟨stack, none⟩, .atom t => some ⟨stack, some (.atom t)⟩
  | ⟨.arguments f [] :: stack, none⟩, .closing => some ⟨stack, some (.call f [])⟩
  | ⟨stack, some e⟩, .opening => some ⟨.arguments e [] :: stack, none⟩
  | ⟨stack, some e⟩, .op o =>
    let (stack, e) := settle o.level stack e
    some ⟨.operand e o :: stack, none⟩
  | ⟨stack, some e⟩, .comma =>
    match settle 4 stack e with
    | (.arguments f done :: stack, e) => some ⟨.arguments f (done ++ [e]) :: stack, none⟩
    | _ => none
  | ⟨stack, some e⟩, .closing =>
    match settle 4 stack e with
    | (.arguments f done :: stack, e) => some ⟨stack, some (.call f (done ++ [e]))⟩
    | _ => none
  | _, _ => none

def finish : Reader → Option Term
  | ⟨stack, some e⟩ =>
    match settle 4 stack e with
    | ([], e) => some e
    | _ => none
  | ⟨_, none⟩ => none

def run (r : Reader) (ts : List Token) : Option Reader := ts.foldlM step r

end Reader

def read? (t : Text) : Option Term := do
  let ts ← Token.scan t
  let r ← Reader.run ⟨[], none⟩ ts
  r.finish

/-! ### Every grouped term is read back -/

/-- Whether the innermost frame is no left operand, or binds more loosely than the level. -/
def Looser (level : Nat) : List Frame → Prop
  | .operand _ op :: _ => level < op.level
  | _ => True

lemma Looser.mono {j k : Nat} {stack : List Frame} (h : Looser k stack) (hjk : j ≤ k) :
    Looser j stack := by
  unfold Looser at *
  split
  · exact Nat.lt_of_le_of_lt hjk h
  · trivial

lemma looser_zero (stack : List Frame) : Looser 0 stack := by
  unfold Looser
  split
  · exact Operator.level_pos _
  · trivial

lemma settle_of_looser {level : Nat} {stack : List Frame} {e : Term} (h : Looser level stack) :
    settle level stack e = (stack, e) := by
  cases stack with
  | nil => rfl
  | cons f stack =>
    cases f with
    | operand left op => exact if_neg (Nat.not_le_of_lt h)
    | arguments f done => rfl

/-- The stack and the operand that are left after a term: its left operands wait. -/
def unwind : Term → List Frame → List Frame × Term
  | .infixed op l r, stack => unwind r (.operand l op :: stack)
  | u, stack => (stack, u)

lemma unwind_of_level_zero {u : Term} (h : u.level = 0) (stack : List Frame) :
    unwind u stack = (stack, u) := by
  cases u with
  | infixed op l r =>
    have := op.level_pos
    exact absurd h (Nat.ne_of_gt this)
  | _ => rfl

/-- What follows a grouped term finds it as one operand. -/
lemma settle_unwind {level : Nat} {u : Term} (hgrouped : u.Grouped) (hlevel : u.level ≤ level)
    (stack : List Frame) :
    settle level (unwind u stack).1 (unwind u stack).2 = settle level stack u := by
  induction u using Term.partsInduction generalizing stack with
  | atom t => rfl
  | call f xs _ _ => rfl
  | infixed op l r _ ihr =>
    obtain ⟨-, hr, -, hrg⟩ := hgrouped
    have hop : op.level ≤ level := hlevel
    rw [unwind, ihr hrg (by omega), settle, if_pos hop]

namespace Reader

lemma run_cons (r : Reader) (t : Token) (ts : List Token) :
    r.run (t :: ts) = (r.step t).bind fun s => s.run ts := by
  simp [run]

/-- Reading a grouped term where no operand waits that binds more tightly. -/
lemma run_tokens {u : Term} (hgrouped : u.Grouped) {stack : List Frame}
    (hlooser : Looser u.level stack) (rest : List Token) :
    run ⟨stack, none⟩ (u.tokens ++ rest) =
      run ⟨(unwind u stack).1, some (unwind u stack).2⟩ rest := by
  induction u using Term.partsInduction generalizing stack rest with
  | atom t => rfl
  | infixed op l r ihl ihr =>
    obtain ⟨hl, hr, hlg, hrg⟩ := hgrouped
    have hop : settle op.level stack l = (stack, l) := settle_of_looser hlooser
    have hstep : step ⟨(unwind l stack).1, some (unwind l stack).2⟩ (.op op) =
        some ⟨.operand l op :: stack, none⟩ := by
      simp only [step, settle_unwind hlg hl, hop]
    have hwaiting : Looser r.level (.operand l op :: stack) := hr
    rw [Term.tokens, List.append_assoc, ihl hlg (hlooser.mono hl), List.cons_append, run_cons,
      hstep]
    exact ihr hrg hwaiting rest
  | call f xs ihf ihs =>
    obtain ⟨hf, hfg, hxg⟩ := hgrouped
    rw [Term.allGrouped_iff] at hxg
    have hopen : step ⟨stack, some f⟩ .opening = some ⟨.arguments f [] :: stack, none⟩ := rfl
    have hcall : ∀ (x : Term) (done : List Term), Looser x.level (.arguments f done :: stack) :=
      fun _ _ => trivial
    -- What follows an argument settles it, since the innermost frame is the call itself.
    have hsettle : ∀ x ∈ xs, ∀ done, settle 4 (unwind x (.arguments f done :: stack)).1
        (unwind x (.arguments f done :: stack)).2 = (.arguments f done :: stack, x) :=
      fun x hx done => settle_unwind (hxg x hx) x.level_le _
    have hlater : ∀ ys ⊆ xs, ∀ x ∈ xs, ∀ done,
        run ⟨(unwind x (.arguments f done :: stack)).1,
            some (unwind x (.arguments f done :: stack)).2⟩
          (Term.laterTokens ys ++ .closing :: rest) =
        run ⟨stack, some (.call f (done ++ x :: ys))⟩ rest := by
      intro ys hys
      induction ys with
      | nil =>
        intro x hx done
        rw [Term.laterTokens, List.nil_append, run_cons, step, hsettle x hx]
        rfl
      | cons y ys ih =>
        intro x hx done
        obtain ⟨hy, hys⟩ := List.cons_subset.mp hys
        rw [Term.laterTokens, List.cons_append, run_cons, step, hsettle x hx]
        simp only [Option.bind_some, List.append_assoc]
        rw [ihs y hy (hxg y hy) (hcall y _), ih hys y hy]
        simp
    rw [Term.tokens, List.append_assoc, ihf hfg (hf ▸ looser_zero stack),
      unwind_of_level_zero hf, List.cons_append, run_cons, hopen]
    cases xs with
    | nil => rfl
    | cons x ys =>
      obtain ⟨hx, hys⟩ := List.cons_subset.mp (List.Subset.refl (x :: ys))
      simp only [Term.argumentTokens, Option.bind_some, List.append_assoc, List.cons_append,
        List.nil_append]
      rw [ihs x hx (hxg x hx) (hcall x _), hlater ys hys x hx]
      rfl

end Reader

/-- A grouped term is read back from its text. -/
lemma read_text {u : Term} (hspelled : u.Spelled) (hgrouped : u.Grouped) :
    read? u.text = some u := by
  have hempty : Looser u.level [] := trivial
  have hrun : Reader.run ⟨[], none⟩ u.tokens = some ⟨(unwind u []).1, some (unwind u []).2⟩ := by
    simpa [Reader.run] using Reader.run_tokens hgrouped hempty []
  have hsettle : settle 4 (unwind u []).1 (unwind u []).2 = ([], u) :=
    settle_unwind hgrouped u.level_le []
  simp [read?, Term.scan_text hspelled, hrun, Reader.finish, hsettle]

/-! ### Every term that is read is grouped -/

def Frame.tokens : Frame → List Token
  | operand left op => left.tokens ++ [.op op]
  | arguments f done => f.tokens ++ .opening :: done.flatMap fun x => x.tokens ++ [.comma]

def stackTokens (stack : List Frame) : List Token := stack.reverse.flatMap Frame.tokens

@[simp] lemma stackTokens_nil : stackTokens [] = [] := rfl

@[simp] lemma stackTokens_cons (f : Frame) (stack : List Frame) :
    stackTokens (f :: stack) = stackTokens stack ++ f.tokens := by
  simp [stackTokens]

lemma flatMap_comma (x : Term) (xs : List Term) (y : Term) :
    (x :: xs).flatMap (fun z => z.tokens ++ [.comma]) ++ y.tokens =
      x.tokens ++ Term.laterTokens (xs ++ [y]) := by
  induction xs generalizing x with
  | nil => simp [Term.laterTokens]
  | cons z rest ih =>
    rw [List.flatMap_cons, List.append_assoc, ih z]
    simp [Term.laterTokens]

/-- The last argument follows the commas of those before it. -/
lemma argumentTokens_append_singleton (xs : List Term) (y : Term) :
    Term.argumentTokens (xs ++ [y]) = xs.flatMap (fun x => x.tokens ++ [.comma]) ++ y.tokens := by
  cases xs with
  | nil => simp [Term.argumentTokens, Term.laterTokens]
  | cons x rest => rw [flatMap_comma, List.cons_append, Term.argumentTokens]

/-- A stack of grouped terms in which the waiting operands of one argument bind ever more
tightly. -/
def Stacked : List Frame → Prop
  | [] => True
  | .operand left op :: stack =>
    left.Grouped ∧ left.level ≤ op.level ∧ Looser op.level stack ∧ Stacked stack
  | .arguments f done :: stack =>
    f.level = 0 ∧ f.Grouped ∧ (∀ x ∈ done, x.Grouped) ∧ Stacked stack

/-- What settling makes of a stack and an operand: nothing is lost, and no tighter operand
waits. -/
lemma settle_spec {level : Nat} {stack : List Frame} {e : Term} (hstack : Stacked stack)
    (he : e.Grouped) (hlevel : e.level ≤ level) (hlooser : Looser e.level stack) :
    Stacked (settle level stack e).1 ∧ (settle level stack e).2.Grouped ∧
      (settle level stack e).2.level ≤ level ∧ Looser level (settle level stack e).1 ∧
      stackTokens (settle level stack e).1 ++ (settle level stack e).2.tokens =
        stackTokens stack ++ e.tokens := by
  induction stack generalizing e with
  | nil => exact ⟨hstack, he, hlevel, trivial, rfl⟩
  | cons f stack ih =>
    cases f with
    | arguments f done => exact ⟨hstack, he, hlevel, trivial, rfl⟩
    | operand left op =>
      by_cases hop : op.level ≤ level
      · obtain ⟨hleft, hle, hbelow, hrest⟩ := hstack
        have hgrouped : (Term.infixed op left e).Grouped := ⟨hle, hlooser, hleft, he⟩
        obtain ⟨hs, hg, hl, hb, htokens⟩ := ih hrest hgrouped hop hbelow
        rw [settle, if_pos hop]
        refine ⟨hs, hg, hl, hb, htokens.trans ?_⟩
        simp [Term.tokens, Frame.tokens]
      · rw [settle, if_neg hop]
        exact ⟨hstack, he, hlevel, Nat.lt_of_not_le hop, rfl⟩

namespace Reader

def tokens (r : Reader) : List Token := stackTokens r.stack ++ r.current.toList.flatMap Term.tokens

/-- What holds between two tokens. -/
structure Sound (r : Reader) : Prop where
  stacked : Stacked r.stack
  grouped : ∀ e ∈ r.current, e.Grouped
  level : ∀ e ∈ r.current, e.level = 0

lemma Sound.settled {stack : List Frame} {e : Term} (h : Sound ⟨stack, some e⟩) (level : Nat) :
    Stacked (settle level stack e).1 ∧ (settle level stack e).2.Grouped ∧
      (settle level stack e).2.level ≤ level ∧ Looser level (settle level stack e).1 ∧
      stackTokens (settle level stack e).1 ++ (settle level stack e).2.tokens =
        stackTokens stack ++ e.tokens := by
  have hzero : e.level = 0 := h.level e rfl
  refine settle_spec h.stacked (h.grouped e rfl) ?_ ?_
  · rw [hzero]
    exact Nat.zero_le level
  · rw [hzero]
    exact looser_zero stack

/-- One token is added to those that have been read. -/
lemma step_sound {r s : Reader} {t : Token} (h : Sound r) (hstep : step r t = some s) :
    Sound s ∧ s.tokens = r.tokens ++ [t] := by
  revert hstep
  fun_cases step r t with
  | case1 stack a =>
    rintro ⟨⟩
    exact ⟨⟨h.stacked, by simp [Term.Grouped], by simp [Term.level]⟩, by simp [tokens, Term.tokens]⟩
  | case2 f stack =>
    rintro ⟨⟩
    obtain ⟨hf, hfg, -, hstack⟩ := h.stacked
    refine ⟨⟨hstack, by simp [Term.Grouped, hf, hfg], by simp [Term.level]⟩, ?_⟩
    simp [tokens, Term.tokens, Frame.tokens, Term.argumentTokens]
  | case3 stack e =>
    rintro ⟨⟩
    have hstack : Stacked (.arguments e [] :: stack) :=
      ⟨h.level e rfl, h.grouped e rfl, by simp, h.stacked⟩
    exact ⟨⟨hstack, by simp, by simp⟩, by simp [tokens, Frame.tokens]⟩
  | case4 stack e o stack' e' hsettle =>
    rintro ⟨⟩
    obtain ⟨hs, hg, hl, hb, htokens⟩ := h.settled o.level
    rw [hsettle] at hs hg hl hb htokens
    have hstack : Stacked (.operand e' o :: stack') := ⟨hg, hl, hb, hs⟩
    refine ⟨⟨hstack, by simp, by simp⟩, ?_⟩
    simp [tokens, Frame.tokens, ← htokens]
  | case5 stack e f done stack' e' hsettle =>
    rintro ⟨⟩
    obtain ⟨⟨hf, hfg, hdone, hs⟩, hg, -, -, htokens⟩ := hsettle ▸ h.settled 4
    have hall : ∀ x ∈ done ++ [e'], x.Grouped := by simpa [or_imp, forall_and] using ⟨hdone, hg⟩
    have hstack : Stacked (.arguments f (done ++ [e']) :: stack') := ⟨hf, hfg, hall, hs⟩
    refine ⟨⟨hstack, by simp, by simp⟩, ?_⟩
    simp [tokens, Frame.tokens, ← htokens]
  | case6 => rintro ⟨⟩
  | case7 stack e f done stack' e' hsettle =>
    rintro ⟨⟩
    obtain ⟨⟨hf, hfg, hdone, hs⟩, hg, -, -, htokens⟩ := hsettle ▸ h.settled 4
    have hall : ∀ x ∈ done ++ [e'], x.Grouped := by simpa [or_imp, forall_and] using ⟨hdone, hg⟩
    have hcall : (Term.call f (done ++ [e'])).Grouped := ⟨hf, hfg, Term.allGrouped_iff.mpr hall⟩
    refine ⟨⟨hs, by simpa using hcall, by simp [Term.level]⟩, ?_⟩
    simp [tokens, Frame.tokens, Term.tokens, argumentTokens_append_singleton, ← htokens]
  | case8 => rintro ⟨⟩
  | case9 => rintro ⟨⟩

/-- A run adds its tokens to those that have been read. -/
lemma run_sound {r s : Reader} {ts : List Token} (h : Sound r) (hrun : run r ts = some s) :
    Sound s ∧ s.tokens = r.tokens ++ ts := by
  induction ts generalizing r with
  | nil =>
    obtain rfl : r = s := by simpa [run] using hrun
    exact ⟨h, by simp⟩
  | cons t rest ih =>
    rw [run_cons] at hrun
    obtain ⟨q, hstep, hrest⟩ := Option.bind_eq_some_iff.mp hrun
    obtain ⟨hq, hone⟩ := step_sound h hstep
    obtain ⟨hs, hmany⟩ := ih hq hrest
    exact ⟨hs, by rw [hmany, hone, List.append_assoc, List.singleton_append]⟩

/-- What is read in the end is grouped and has all the tokens. -/
lemma finish_sound {r : Reader} {u : Term} (h : Sound r) (hfinish : finish r = some u) :
    u.Grouped ∧ u.tokens = r.tokens := by
  revert hfinish
  fun_cases finish r with
  | case1 stack e e' hsettle =>
    rintro ⟨⟩
    obtain ⟨-, hg, -, -, htokens⟩ := hsettle ▸ h.settled 4
    exact ⟨hg, by simpa [tokens] using htokens⟩
  | case2 => rintro ⟨⟩
  | case3 => rintro ⟨⟩

end Reader

/-- What is read from a text has that text. -/
lemma read_sound {t : Text} {u : Term} (h : read? t = some u) :
    t = u.text ∧ u.Spelled ∧ u.Grouped := by
  simp only [read?, Option.bind_eq_bind, Option.bind_eq_some_iff] at h
  obtain ⟨ts, hscan, r, hrun, hfinish⟩ := h
  obtain ⟨htext, hatoms⟩ := Token.scan_sound hscan
  have hstart : Reader.Sound ⟨[], none⟩ := ⟨trivial, by simp, by simp⟩
  obtain ⟨hr, hread⟩ := Reader.run_sound hstart hrun
  obtain ⟨hgrouped, htokens⟩ := Reader.finish_sound hr hfinish
  have hall : u.tokens = ts := by simpa [htokens, Reader.tokens] using hread
  refine ⟨?_, ?_, hgrouped⟩
  · rw [Term.text_eq_tokens, hall, htext]
  · rw [Term.spelled_iff, hall]
    exact hatoms

/-- The reader finds the readings of a text, and there is at most one. -/
lemma read_eq_some_iff {t : Text} {u : Term} : read? t = some u ↔ Reads 4 t u := by
  rw [reads_iff]
  constructor
  · intro h
    obtain ⟨htext, hspelled, hgrouped⟩ := read_sound h
    exact ⟨htext, hspelled, hgrouped, u.level_le⟩
  · rintro ⟨rfl, hspelled, hgrouped, -⟩
    exact read_text hspelled hgrouped

/-! ### Every text of a term is read

A term that is not grouped has a reading too, another one: its operators take other operands. -/

/-- The stack from the innermost call on. -/
def base : List Frame → List Frame
  | .operand _ _ :: stack => base stack
  | stack => stack

lemma base_settle (level : Nat) (stack : List Frame) (e : Term) :
    base (settle level stack e).1 = base stack := by
  fun_induction settle level stack e with
  | case1 left op stack e hop ih => exact ih
  | case2 left op stack e hop => rfl
  | case3 stack e hne => rfl

/-- At the loosest level all operands of an argument are settled. -/
lemma exists_settle_four {stack below : List Frame} (h : base stack = below) (e : Term) :
    ∃ e', settle 4 stack e = (below, e') := by
  induction stack generalizing e with
  | nil => exact ⟨e, by rw [← h]; rfl⟩
  | cons f stack ih =>
    cases f with
    | arguments f done => exact ⟨e, by rw [← h]; rfl⟩
    | operand left op =>
      rw [settle, if_pos op.level_le]
      exact ih h _

namespace Reader

/-- An operator or a call never stops a reader that has an operand. -/
lemma run_tokens_progress (u : Term) (stack : List Frame) (rest : List Token) :
    ∃ stack' e, base stack' = base stack ∧
      run ⟨stack, none⟩ (u.tokens ++ rest) = run ⟨stack', some e⟩ rest := by
  induction u using Term.partsInduction generalizing stack rest with
  | atom t => exact ⟨stack, .atom t, rfl, rfl⟩
  | infixed op l r ihl ihr =>
    obtain ⟨stack₁, e₁, hbase₁, hrun₁⟩ := ihl stack (.op op :: (r.tokens ++ rest))
    obtain ⟨stack₂, e₂, hbase₂, hrun₂⟩ :=
      ihr (.operand (settle op.level stack₁ e₁).2 op :: (settle op.level stack₁ e₁).1) rest
    refine ⟨stack₂, e₂, ?_, ?_⟩
    · rw [hbase₂, base, base_settle, hbase₁]
    · rw [Term.tokens, List.append_assoc, List.cons_append, hrun₁, run_cons]
      exact hrun₂
  | call f xs ihf ihs =>
    obtain ⟨below, g, hbelow, hcallee⟩ :=
      ihf stack (.opening :: (Term.argumentTokens xs ++ .closing :: rest))
    have hlater : ∀ ys ⊆ xs, ∀ done stack' e, base stack' = .arguments g done :: below →
        ∃ e', run ⟨stack', some e⟩ (Term.laterTokens ys ++ .closing :: rest) =
          run ⟨below, some e'⟩ rest := by
      intro ys hys
      induction ys with
      | nil =>
        intro done stack' e hbase
        obtain ⟨e', hsettle⟩ := exists_settle_four hbase e
        refine ⟨.call g (done ++ [e']), ?_⟩
        rw [Term.laterTokens, List.nil_append, run_cons, step, hsettle]
        rfl
      | cons y ys ih =>
        intro done stack' e hbase
        obtain ⟨hy, hys⟩ := List.cons_subset.mp hys
        obtain ⟨e', hsettle⟩ := exists_settle_four hbase e
        obtain ⟨stack₁, e₁, hbase₁, hrun₁⟩ := ihs y hy (.arguments g (done ++ [e']) :: below)
          (Term.laterTokens ys ++ .closing :: rest)
        obtain ⟨e₂, hrun₂⟩ := ih hys (done ++ [e']) stack₁ e₁ hbase₁
        refine ⟨e₂, ?_⟩
        rw [Term.laterTokens, List.cons_append, run_cons, step, hsettle, List.append_assoc]
        exact hrun₁.trans hrun₂
    have hopen : step ⟨below, some g⟩ .opening = some ⟨.arguments g [] :: below, none⟩ := rfl
    have hstart : run ⟨stack, none⟩ ((Term.call f xs).tokens ++ rest) =
        run ⟨.arguments g [] :: below, none⟩ (Term.argumentTokens xs ++ .closing :: rest) := by
      simp only [Term.tokens, List.append_assoc, List.cons_append, List.nil_append]
      rw [hcallee, run_cons, hopen, Option.bind_some]
    rw [hstart]
    cases xs with
    | nil => exact ⟨below, .call g [], hbelow, rfl⟩
    | cons x ys =>
      obtain ⟨hx, hys⟩ := List.cons_subset.mp (List.Subset.refl (x :: ys))
      obtain ⟨stack₁, e₁, hbase₁, hrun₁⟩ := ihs x hx (.arguments g [] :: below)
        (Term.laterTokens ys ++ .closing :: rest)
      obtain ⟨e₂, hrun₂⟩ := hlater ys hys [] stack₁ e₁ hbase₁
      refine ⟨below, e₂, hbelow, ?_⟩
      rw [Term.argumentTokens, List.append_assoc]
      exact hrun₁.trans hrun₂

end Reader

/-- Every formula that a term has is read. -/
lemma exists_read_text {u : Term} (hspelled : u.Spelled) : ∃ v, read? u.text = some v := by
  obtain ⟨stack, e, hbase, hrun⟩ := Reader.run_tokens_progress u [] []
  obtain ⟨v, hsettle⟩ := exists_settle_four hbase e
  have hread : Reader.run ⟨[], none⟩ u.tokens = some ⟨stack, some e⟩ := by
    simpa [Reader.run] using hrun
  refine ⟨v, ?_⟩
  simp [read?, Term.scan_text hspelled, hread, Reader.finish, hsettle, base]

/-- The text of a term has exactly one reading, and this is the term itself when it is grouped and
only then. -/
lemma reads_text {u : Term} (hspelled : u.Spelled) :
    (∃! v, Reads 4 u.text v) ∧ (Reads 4 u.text u ↔ u.Grouped) := by
  obtain ⟨v, hv⟩ := exists_read_text hspelled
  constructor
  · refine ⟨v, read_eq_some_iff.mp hv, fun w hw => ?_⟩
    exact Option.some.inj ((read_eq_some_iff.mpr hw).symm.trans hv)
  · rw [reads_iff]
    exact ⟨fun h => h.2.2.1, fun h => ⟨rfl, hspelled, h, u.level_le⟩⟩

end SheetFormula.Formula
