import SheetFormula.Proofs.Json.RoundTrip

/-!
# Reading no further than the value

Once a value has been read from the front of a text, what stands behind the text cannot change it
any more: the machine reads the same value from every longer text, and leaves the longer rest. Only
a number at the very end of the text is an exception, because more digits would belong to it. A part
of an array or object is always followed by something, so that this concerns the outermost value
alone.
-/

namespace SheetFormula

lemma Text.dropStart_append {part t rest : Text} (h : Text.dropStart? part t = some rest)
    (s : Text) : Text.dropStart? part (t ++ s) = some (rest ++ s) := by
  fun_induction Text.dropStart? part t with
  | case1 t =>
    cases h
    rfl
  | case2 => cases h
  | case3 part a t ih => rw [List.cons_append, Text.dropStart?, if_pos rfl, ih h]
  | case4 => cases h

namespace Json

lemma skipSpace_append {t rest : Text} {b : UInt8} (h : skipSpace t = b :: rest) (s : Text) :
    skipSpace (t ++ s) = b :: (rest ++ s) := by
  rw [skipSpace] at h
  rw [skipSpace, List.dropWhile_append, h]
  rfl

/-! ### Strings -/

lemma unit_append {t : Text} {n : Nat} (h : unit? t = some n) (s : Text) :
    unit? (t ++ s) = some n ∧ ∀ u, (t ++ u).drop 4 = t.drop 4 ++ u := by
  match t, h with
  | a :: b :: c :: d :: rest, h => exact ⟨h, fun u => rfl⟩

lemma stringFrom_drop {escaped raw : Bool} {done : Text} (n : Nat) (t : Text) :
    stringFrom n escaped raw done t = stringFrom 0 escaped raw done (t.drop n) := by
  induction t generalizing n with
  | nil => cases n <;> rfl
  | cons b t ih =>
    cases n with
    | zero => rfl
    | succ n => exact ih n

/-- Half a pair is told from a whole pair by what stands behind it, unless this is nothing or a
backslash alone. -/
lemma dropStart_pair {t : Text} (h : Text.dropStart? "\\u" t = none) (ht : ¬ t <+: "\\")
    (s : Text) : Text.dropStart? "\\u" (t ++ s) = none := by
  have hmark : ("\\u" : Text) = [('\\' : UInt8), ('u' : UInt8)] := rfl
  rw [hmark] at h ⊢
  match t with
  | [] => exact absurd List.nil_prefix ht
  | [b] =>
    have hb : ('\\' : UInt8) ≠ b := by
      rintro rfl
      exact ht List.prefix_rfl
    rw [List.cons_append, Text.dropStart?, if_neg hb]
  | b :: c :: t =>
    by_cases hb : ('\\' : UInt8) = b
    · have hc : ('u' : UInt8) ≠ c := by
        rintro rfl
        rw [Text.dropStart?, if_pos hb, Text.dropStart?, if_pos rfl] at h
        cases h
      rw [List.cons_append, List.cons_append, Text.dropStart?, if_pos hb, Text.dropStart?,
        if_neg hc]
    · rw [List.cons_append, Text.dropStart?, if_neg hb]

lemma escape_append {t bytes : Text} {n : Nat} (h : escape? t = some (bytes, n))
    (hrest : ¬ t.drop n <+: "\\") (s : Text) : escape? (t ++ s) = some (bytes, n) := by
  cases t with
  | nil => cases h
  | cons a t =>
    rw [List.cons_append]
    by_cases hu : a = ('u' : UInt8)
    · subst hu
      rw [escape?, if_neg (by decide), if_neg (by decide), if_neg (by decide), if_neg (by decide),
        if_neg (by decide), if_neg (by decide), if_pos rfl] at h ⊢
      obtain ⟨m, hunit, h⟩ := Option.bind_eq_some_iff.mp h
      obtain ⟨hunit', hdrop⟩ := unit_append hunit s
      rw [hunit', Option.bind_some, hdrop]
      split_ifs at h ⊢ with hsurrogate
      · cases hpair : Text.dropStart? "\\u" (t.drop 4) with
        | some more =>
          simp only [hpair, Option.map_eq_some_iff] at h
          obtain ⟨k, hk, hresult⟩ := h
          simp only [Text.dropStart_append hpair s, (unit_append hk s).1, Option.map_some, hresult]
        | none =>
          simp only [hpair, Option.some.injEq] at h
          have hlength : n = 5 := (congrArg Prod.snd h).symm
          subst hlength
          simp only [dropStart_pair hpair hrest s, h]
      · exact h
    · -- No other escape is longer than its first byte.
      rw [escape?, if_neg hu] at h ⊢
      exact h

/-- A string ends at its closing quote, so that nothing behind it matters. -/
lemma stringFrom_append {skip : Nat} {escaped raw : Bool} {done t : Text} {r : StringRead}
    (h : stringFrom skip escaped raw done t = some r) (s : Text) :
    stringFrom skip escaped raw done (t ++ s) = some { r with rest := r.rest ++ s } := by
  fun_induction stringFrom skip escaped raw done t with
  | case1 => cases h
  | case2 skip escaped raw done b rest ih => exact ih h
  | case3 escaped raw done rest =>
    cases h
    rfl
  | case4 escaped raw done rest bytes n hescape hquote ih =>
    have hrest : ¬ rest.drop n <+: "\\" := by
      -- The string would not be closed.
      rw [stringFrom_drop] at h
      intro hprefix
      obtain ⟨more, hmore⟩ := hprefix
      rcases hdrop : rest.drop n with _ | ⟨c, tail⟩
      · rw [hdrop] at h
        cases h
      · rw [hdrop] at h hmore
        obtain ⟨rfl, htail⟩ := List.cons.inj hmore
        obtain rfl := (List.append_eq_nil_iff.mp htail).1
        cases h
    rw [List.cons_append, stringFrom, if_neg (by decide), if_pos rfl, escape_append hescape hrest]
    exact ih h
  | case5 => cases h
  | case6 escaped raw done b rest hquote hslash ih =>
    rw [List.cons_append, stringFrom, if_neg hquote, if_neg hslash]
    exact ih h

/-! ### Names and values -/

/-- A name, and what follows the colon behind it. -/
def named? (name : Name) (t : Text) : Option (Name × Text) :=
  match skipSpace t with
  | b :: rest => if b = ':' then some (name, rest) else none
  | [] => none

lemma named_append {t rest : Text} {name found : Name} (h : named? name t = some (found, rest))
    (s : Text) : named? name (t ++ s) = some (found, rest ++ s) := by
  rw [named?] at h ⊢
  cases hskip : skipSpace t with
  | nil =>
    rw [hskip] at h
    cases h
  | cons b more =>
    rw [hskip] at h
    rw [skipSpace_append hskip]
    simp only at h ⊢
    split_ifs at h ⊢ with hcolon
    cases h
    rfl

lemma quotedName_append {t rest : Text} {name : Name} (h : quotedName? t = some (name, rest))
    (s : Text) : quotedName? (t ++ s) = some (name, rest ++ s) := by
  obtain ⟨r, hstring, h⟩ := Option.bind_eq_some_iff.mp h
  have hlonger : string? (t ++ s) = some { r with rest := r.rest ++ s } :=
    stringFrom_append hstring s
  exact Option.bind_eq_some_iff.mpr ⟨_, hlonger, named_append h s⟩

lemma laterName_append {t rest : Text} {name : Name} (h : laterName? t = some (name, rest))
    (s : Text) : laterName? (t ++ s) = some (name, rest ++ s) := by
  rw [laterName?] at h ⊢
  cases hskip : skipSpace t with
  | nil =>
    rw [hskip] at h
    cases h
  | cons a more =>
    rw [hskip] at h
    rw [skipSpace_append hskip]
    simp only at h ⊢
    split_ifs at h ⊢ with hquote
    · exact quotedName_append h s
    · cases hnull : Text.dropStart? "null" (a :: more) with
      | none =>
        rw [hnull] at h
        cases h
      | some tail =>
        rw [hnull] at h
        have hlonger := Text.dropStart_append hnull s
        rw [List.cons_append] at hlonger
        rw [hlonger]
        exact named_append h s

/-- A value whose text shows where it ends. Only a number could go on. -/
def Value.Closed : Value → Prop
  | .number _ => False
  | _ => True

/-- A number that something follows does not change. -/
lemma number_append {t : Text} (h : t.dropWhile isNumberByte ≠ []) (s : Text) :
    (t ++ s).takeWhile isNumberByte = t.takeWhile isNumberByte ∧
      (t ++ s).dropWhile isNumberByte = t.dropWhile isNumberByte ++ s := by
  have hlength : ¬ (t.takeWhile isNumberByte).length = t.length := by
    have hsplit :=
      congrArg List.length (List.takeWhile_append_dropWhile (p := isNumberByte) (l := t))
    have hpos := List.length_pos_iff.mpr h
    rw [List.length_append] at hsplit
    omega
  rw [List.takeWhile_append, if_neg hlength, List.dropWhile_append, if_neg (by simpa using h)]
  exact ⟨rfl, rfl⟩

lemma scalar_append {t rest : Text} {v : Value} (h : scalar? t = some (v, rest))
    (hend : v.Closed ∨ rest ≠ []) (s : Text) : scalar? (t ++ s) = some (v, rest ++ s) := by
  cases t with
  | nil => cases h
  | cons a t =>
    have hword : ∀ (word : Text) (w : Value),
        (Text.dropStart? word (a :: t)).map (w, ·) = some (v, rest) →
          (Text.dropStart? word (a :: (t ++ s))).map (w, ·) = some (v, rest ++ s) := by
      intro word w h
      obtain ⟨more, hmore, hpair⟩ := Option.map_eq_some_iff.mp h
      cases hpair
      have hlonger := Text.dropStart_append hmore s
      rw [List.cons_append] at hlonger
      rw [hlonger]
      rfl
    rw [List.cons_append, scalar?]
    rw [scalar?] at h
    simp only at h ⊢
    split_ifs at h with hquote hnull htrue hfalse hnumber
    · rw [if_pos hquote]
      obtain ⟨r, hstring, h⟩ := Option.bind_eq_some_iff.mp h
      have hlonger : string? (t ++ s) = some { r with rest := r.rest ++ s } :=
        stringFrom_append hstring s
      rw [hlonger, Option.bind_some]
      split_ifs at h ⊢ with hraw
      cases h
      rfl
    · rw [if_neg hquote, if_pos hnull]
      exact hword _ _ h
    · rw [if_neg hquote, if_neg hnull, if_pos htrue]
      exact hword _ _ h
    · rw [if_neg hquote, if_neg hnull, if_neg htrue, if_pos hfalse]
      exact hword _ _ h
    · cases h
      obtain ⟨htake, hdrop⟩ := number_append (hend.resolve_left id) s
      rw [List.cons_append] at htake hdrop
      rw [if_neg hquote, if_neg hnull, if_neg htrue, if_neg hfalse, htake, if_pos hnumber, hdrop]

/-! ### The machine -/

/-- The start of a value, with more text behind it. -/
def Opening.followedBy (s : Text) : Opening → Opening
  | .inside frame rest => .inside frame (rest ++ s)
  | .whole v rest => .whole v (rest ++ s)

/-- A value of which more than the start has been read cannot go on. -/
def Opening.Settled : Opening → Prop
  | .inside _ _ => True
  | .whole v rest => v.Closed ∨ rest ≠ []

lemma opening_append {t : Text} {o : Opening} (h : opening? t = some o) (hsettled : o.Settled)
    (s : Text) : opening? (t ++ s) = some (o.followedBy s) := by
  rw [opening?] at h ⊢
  cases hskip : skipSpace t with
  | nil =>
    rw [hskip] at h
    cases h
  | cons a rest =>
    rw [hskip] at h
    rw [skipSpace_append hskip]
    simp only at h ⊢
    split_ifs at h ⊢ with harray hobject
    · cases hnext : skipSpace rest with
      | nil =>
        rw [hnext] at h
        cases h
      | cons b more =>
        rw [hnext] at h
        rw [skipSpace_append hnext]
        simp only at h ⊢
        split_ifs at h ⊢ with hempty
        · cases h
          rfl
        · cases h
          rfl
    · cases hnext : skipSpace rest with
      | nil =>
        rw [hnext] at h
        cases h
      | cons b more =>
        rw [hnext] at h
        rw [skipSpace_append hnext]
        simp only at h ⊢
        split_ifs at h ⊢ with hempty hquote
        · cases h
          rfl
        · obtain ⟨⟨name, tail⟩, hname, hinside⟩ := Option.map_eq_some_iff.mp h
          rw [quotedName_append hname, ← hinside]
          rfl
    · obtain ⟨⟨v, tail⟩, hscalar, hwhole⟩ := Option.map_eq_some_iff.mp h
      subst hwhole
      have hlonger := scalar_append hscalar hsettled s
      rw [List.cons_append] at hlonger
      rw [hlonger]
      rfl

/-- What to do next, with more text behind. -/
def Next.followedBy (s : Text) : Next → Next
  | .part room stack rest => .part room stack (rest ++ s)
  | .finished v rest => .finished v (rest ++ s)

lemma close_append {room : Nat} {stack : List Frame} {v : Value} {t : Text} {next : Next}
    (h : close room stack v t = some next) (s : Text) :
    close room stack v (t ++ s) = some (next.followedBy s) := by
  induction stack generalizing room v t with
  | nil =>
    cases h
    rfl
  | cons frame stack ih =>
    cases hskip : skipSpace t with
    | nil =>
      cases frame <;>
        · simp only [close, hskip] at h
          cases h
    | cons b rest =>
      cases frame with
      | array done =>
        simp only [close, hskip] at h
        simp only [close, skipSpace_append hskip]
        split_ifs at h ⊢ with hcomma hend
        · cases h
          rfl
        · exact ih h
      | object done name =>
        simp only [close, hskip] at h
        simp only [close, skipSpace_append hskip]
        split_ifs at h ⊢ with hcomma hend
        · obtain ⟨⟨found, tail⟩, hname, hpart⟩ := Option.map_eq_some_iff.mp h
          rw [laterName_append hname, ← hpart]
          rfl
        · exact ih h

/-- A frame that is open is closed only by something behind the value. -/
lemma ne_nil_of_close {room : Nat} {frame : Frame} {stack : List Frame} {v : Value} {t : Text}
    {next : Next} (h : close room (frame :: stack) v t = some next) : t ≠ [] := by
  rintro rfl
  cases frame <;> cases h

lemma ne_nil_of_part {room room' : Nat} {stack stack' : List Frame} {v : Value} {t rest : Text}
    (h : close room stack v t = some (.part room' stack' rest)) : stack' ≠ [] := by
  fun_induction close room stack v t with
  | case1 => cases h
  | case2 => cases h
  | case3 =>
    cases h
    exact List.cons_ne_nil _ _
  | case4 room done stack v t rest hskip hne ih => exact ih h
  | case5 => cases h
  | case6 => cases h
  | case7 =>
    obtain ⟨⟨found, tail⟩, -, hpart⟩ := Option.map_eq_some_iff.mp h
    cases hpart
    exact List.cons_ne_nil _ _
  | case8 room done name stack v t rest hskip hne ih => exact ih h
  | case9 => cases h

/-- The machine reads the same from a longer text, in at least as many rounds. -/
lemma run_append {rounds room : Nat} {stack : List Frame} {t rest : Text} {v : Value}
    (h : run rounds room stack t = some (v, rest)) (hend : stack ≠ [] ∨ v.Closed) {more : Nat}
    (hmore : rounds ≤ more) (s : Text) : run more room stack (t ++ s) = some (v, rest ++ s) := by
  induction rounds generalizing room stack t more with
  | zero => cases h
  | succ rounds ih =>
    obtain ⟨more, rfl⟩ : ∃ k, more = k + 1 := ⟨more - 1, by omega⟩
    cases hopen : opening? t with
    | none =>
      rw [run, hopen] at h
      cases h
    | some o =>
      cases o with
      | inside frame tail =>
        have hlonger := opening_append hopen trivial s
        cases room with
        | zero =>
          rw [run, hopen] at h
          cases h
        | succ room =>
          rw [run_inside hopen] at h
          rw [run_inside hlonger]
          exact ih h (.inl (List.cons_ne_nil frame stack)) (by omega)
      | whole w tail =>
        rw [run_whole hopen, resume] at h
        cases hclose : close room stack w tail with
        | none =>
          rw [hclose] at h
          cases h
        | some next =>
          rw [hclose] at h
          have hsettled : (Opening.whole w tail).Settled := by
            cases stack with
            | nil =>
              cases hclose
              cases h
              exact .inl (hend.resolve_left fun hne => hne rfl)
            | cons frame stack => exact .inr (ne_nil_of_close hclose)
          have hlonger := opening_append hopen hsettled s
          rw [Opening.followedBy] at hlonger
          rw [run_whole hlonger, resume, close_append hclose]
          cases next with
          | part room' stack' tail' => exact ih h (.inl (ne_nil_of_part hclose)) (by omega)
          | finished w' tail' =>
            cases h
            rfl

/-- A value that has been read stays the same, whatever follows the text. -/
lemma read_append {t rest : Text} {v : Value} (h : read? t = some (v, rest)) (hv : v.Closed)
    (s : Text) : read? (t ++ s) = some (v, rest ++ s) := by
  have hlength : t.length ≤ (t ++ s).length := by
    rw [List.length_append]
    exact Nat.le_add_right _ _
  exact run_append h (.inr hv) hlength s

end Json

end SheetFormula
