import SheetFormula.Proofs.CommandLine.Depositing

/-!
# What a later run finds

A tree that has grown by output has the same units at the same paths, with the same content. So the
arguments of a run come to the same inputs, and each of these to the same result. The settings file
is found again as well, unless output has come to stand in its place.
-/

namespace SheetFormula

open SheetFormula.Path Session

/-! ### Names below a path -/

namespace Path

section Names

variable {q : Text} {names : List Text} (hq : q ≠ []) (hne : names ≠ [])
  (hproper : ∀ c ∈ names, Proper c) (hslash : ∀ c ∈ names, slash ∉ c)
include hq hne hproper hslash

lemma components_append_names :
    components (q ++ slash :: Text.join [slash] names) = components q ++ names := by
  rw [components, components, isAbsolute_append hq, Text.splitOn_append,
    Text.splitOn_join hne hslash, List.foldl_append, foldl_push_proper hproper,
    List.reverse_append, List.reverse_reverse]

lemma resolve_append_names (here : Location) :
    resolve here (q ++ slash :: Text.join [slash] names) = resolve here q ++ names := by
  rw [resolve_append_slash, Text.splitOn_join hne hslash, resolve_trailing_slash hq,
    foldl_follow_proper hproper]

end Names

end Path

namespace FileTree

variable {made written : List Location} {t t' : FileTree} {p root u : Text} {l dir : Location}

/-- A name as a file system has it. -/
structure IsName (c : Text) : Prop where
  proper : Proper c
  noSlash : slash ∉ c
  takes : Takes c

/-- All locations in a tree are made of names. -/
def WellNamed (t : FileTree) : Prop := ∀ x ∈ t.entries, ∀ c ∈ x.1, IsName c

instance decidableWellNamed (t : FileTree) : Decidable t.WellNamed :=
  decidable_of_iff (∀ x ∈ t.entries, ∀ c ∈ x.1, (c ≠ "" ∧ c ≠ "." ∧ c ≠ "..") ∧ slash ∉ c ∧
      c.length ≤ maxName ∧ 0 ∉ c)
    ⟨fun h x hx c hc => ⟨(h x hx c hc).1, (h x hx c hc).2.1, (h x hx c hc).2.2⟩,
      fun h x hx c hc => ⟨(h x hx c hc).proper, (h x hx c hc).noSlash, (h x hx c hc).takes⟩⟩

/-- The path of an entry below a directory leads to the entry. -/
lemma locate_pathBelow (hsound : t.Sound) (hnamed : t.WellNamed) (hroot : t.locate root = .ok dir)
    {names : Location} {e : Entry} (hne : names ≠ []) (hget : t.get? (dir ++ names) = some e) :
    t.locate (pathBelow root names) = .ok (dir ++ names) := by
  have hx : (dir ++ names, e) ∈ t.entries := mem_of_get (by simp [hne]) hget
  obtain ⟨husable, -, rfl⟩ := locate_eq_ok.mp hroot
  have hnames : ∀ c ∈ names, IsName c := fun c hc => hnamed _ hx c (List.mem_append_right _ hc)
  have hproper : ∀ c ∈ names, Proper c := fun c hc => (hnames c hc).proper
  have hslash : ∀ c ∈ names, slash ∉ c := fun c hc => (hnames c hc).noSlash
  have hq : root ≠ [] := husable.2.1
  rw [pathBelow, Path.join, if_neg (by simpa using hq)]
  have hplace := resolve_append_names hq hne hproper hslash t.here
  rw [← hplace]
  apply hsound.locate_clean
  · intro c hc
    rw [components_append_names hq hne hproper hslash] at hc
    rcases List.mem_append.mp hc with hc | hc
    · exact husable.takes (mem_splitOn_of_mem_components hc)
    · exact (hnames c hc).takes
  · rw [hplace]
    exact hsound.inside _ hx

lemma mem_unitsBelow (h : u ∈ t.unitsBelow root dir) :
    ∃ names e, names ≠ [] ∧ t.get? (dir ++ names) = some e ∧ u = pathBelow root names ∧
      isUnit u = true := by
  rw [unitsBelow_eq] at h
  obtain ⟨⟨names, e⟩, hx, rfl⟩ := List.mem_map.mp h
  obtain ⟨hvisible, hfound⟩ := List.mem_filter.mp hx
  have hsees := mem_visible.mp hvisible
  exact ⟨names, e, hsees.ne_nil, hsees.get, rfl, (isFound_iff.mp hfound).2⟩

/-! ### Units in a grown tree -/

/-- A path of a unit that leads to an entry of a tree. -/
def HasUnit (t : FileTree) (p : Text) : Prop :=
  isUnit p = true ∧ ∃ l, t.locate p = .ok l ∧ t.get? l ≠ none

/-- What is read at a path stays the same where nothing is written. -/
lemma Grows.read (h : t.Grows made written t') (hl : t.locate p = .ok l) (hthere : t.get? l ≠ none)
    (hfree : l ∉ written) : t'.read p = t.read p := by
  refine read_congr hl (h.toExtends.locate hl) ?_
  rcases h.changedOnly l with hsame | ⟨-, hnone, -⟩ | ⟨hwritten, -, -⟩
  · exact hsame
  · exact absurd hnone hthere
  · exact absurd hwritten hfree

lemma HasUnit.not_mem (hp : t.HasUnit p) (hwritten : ∀ l ∈ written, NoUnit l) :
    resolve t.here p ∉ written :=
  fun hmem => not_noUnit_resolve hp.1 t.here (hwritten _ hmem)

/-- A unit has the same result in a tree that grows elsewhere. -/
lemma HasUnit.compileFile (hp : t.HasUnit p) (h : t.Grows made written t')
    (hwritten : ∀ l ∈ written, NoUnit l) (options : CompileOptions) :
    t'.compileFile options p = t.compileFile options p := by
  have hfree := hp.not_mem hwritten
  obtain ⟨-, l, hl, hthere⟩ := hp
  obtain ⟨-, -, rfl⟩ := locate_eq_ok.mp hl
  exact compileFile_congr (h.read hl hthere hfree)

end FileTree

/-! ### Inputs in a grown tree -/

namespace Session

variable {made written : List Location} {t t' : FileTree} {a u : Text} {us : List Text}
  {arguments inputs : List Text}

/-- Arguments that are files are units. -/
def NamesUnits (t : FileTree) (arguments : List Text) : Prop :=
  ∀ a ∈ arguments, a ≠ standardInput → ∀ e, t.find a = .ok e → e = .directory ∨ isUnit a = true

/-- An argument that leads to an entry comes to the units in it, or to itself. -/
lemma unitsOf_of_get {l : Location} {e : Entry} (hinput : a ≠ standardInput)
    (hl : t.locate a = .ok l) (hget : t.get? l = some e) :
    unitsOf t a = .ok (if e = .directory then t.unitsBelow a l else [a]) := by
  rw [unitsOf, if_neg hinput, hl]
  cases e <;> simp only [hget] <;> rfl

lemma unitsOf_eq_ok (h : unitsOf t a = .ok us) :
    a = standardInput ∧ us = [a] ∨
      a ≠ standardInput ∧ ∃ l e, t.locate a = .ok l ∧ t.get? l = some e ∧
        us = if e = .directory then t.unitsBelow a l else [a] := by
  by_cases hinput : a = standardInput
  · rw [unitsOf, if_pos hinput] at h
    exact .inl ⟨hinput, (Except.ok.inj h).symm⟩
  · refine .inr ⟨hinput, ?_⟩
    cases hl : t.locate a with
    | error fault =>
      rw [unitsOf, if_neg hinput, hl] at h
      cases h
    | ok l =>
      cases hget : t.get? l with
      | none =>
        simp only [unitsOf, if_neg hinput, hl, hget] at h
        cases h
      | some e =>
        rw [unitsOf_of_get hinput hl hget] at h
        exact ⟨l, e, rfl, hget, (Except.ok.inj h).symm⟩

/-- The inputs of an argument are the same in a tree that grows by output. -/
lemma unitsOf_of_grows (hgrows : t.Grows made written t') (hsound : t.Sound)
    (hwritten : ∀ l ∈ written, FileTree.NoUnit l) (h : unitsOf t a = .ok us) :
    unitsOf t' a = .ok us := by
  rcases unitsOf_eq_ok h with ⟨rfl, rfl⟩ | ⟨hinput, l, e, hl, hget, rfl⟩
  · rfl
  · have hl' := hgrows.toExtends.locate hl
    have hroot : a ≠ [] := (FileTree.locate_eq_ok.mp hl).1.2.1
    by_cases he : e = .directory
    · subst he
      rw [unitsOf_of_get hinput hl' (hgrows.toExtends.directory l hget), if_pos rfl, if_pos rfl,
        hgrows.unitsBelow hsound hwritten hroot]
    · obtain ⟨e', he', hget'⟩ := hgrows.file he hget
      rw [unitsOf_of_get hinput hl' hget', if_neg he, if_neg he']

lemma expandInputs_of_grows (hgrows : t.Grows made written t') (hsound : t.Sound)
    (hwritten : ∀ l ∈ written, FileTree.NoUnit l) (h : expandInputs t arguments = .ok inputs) :
    expandInputs t' arguments = .ok inputs := by
  rw [expandInputs] at h ⊢
  split_ifs at h ⊢
  · exact h
  · rw [Result.map_eq_ok] at h ⊢
    obtain ⟨uss, huss, hflat⟩ := h
    exact ⟨uss, Result.mapM_of_ok (fun a _ us => unitsOf_of_grows hgrows hsound hwritten) huss,
      hflat⟩

/-- All inputs from files are units of the tree. -/
lemma hasUnit_of_mem_inputs (hsound : t.Sound) (hnamed : t.WellNamed)
    (hunits : NamesUnits t arguments) (h : expandInputs t arguments = .ok inputs) (hu : u ∈ inputs)
    (hfile : u ≠ standardInput) : t.HasUnit u := by
  rw [expandInputs] at h
  split_ifs at h
  · obtain rfl := Except.ok.inj h
    exact absurd (List.mem_singleton.mp hu) hfile
  · rw [Result.map_eq_ok] at h
    obtain ⟨uss, huss, rfl⟩ := h
    obtain ⟨us, hus, hu⟩ := List.mem_flatten.mp hu
    have hall : Result.Meets (fun uss => ∀ us ∈ uss, ∀ u ∈ us, u ≠ standardInput → t.HasUnit u)
        (fun _ => True) (arguments.mapM (unitsOf t)) := by
      apply Result.Meets.mapM
      intro a ha
      cases hof : unitsOf t a with
      | error f => trivial
      | ok us =>
        intro u hu hfile
        rcases unitsOf_eq_ok hof with ⟨rfl, rfl⟩ | ⟨hinput, l, e, hl, hget, rfl⟩
        · exact absurd (List.mem_singleton.mp hu) hfile
        · split_ifs at hu with hdirectory
          · obtain ⟨names, e', hne, hget', rfl, hunit⟩ := FileTree.mem_unitsBelow hu
            exact ⟨hunit, _, FileTree.locate_pathBelow hsound hnamed hl hne hget', by simp [hget']⟩
          · obtain rfl := List.mem_singleton.mp hu
            have hfind : t.find u = .ok e := by
              rw [FileTree.find, hl]
              simp only [bind, Except.bind, hget]
            rcases hunits u ha hinput e hfind with rfl | hunit
            · exact absurd rfl hdirectory
            · exact ⟨hunit, l, hl, by simp [hget]⟩
    rw [huss] at hall
    exact hall us hus u hu hfile

end Session

/-! ### Settings in a grown tree -/

namespace FileTree

variable {made written : List Location} {t t' : FileTree} {p : Text}

lemma isThere_iff : t.isThere p = true ↔ ∃ l, t.locate p = .ok l ∧ t.get? l ≠ none := by
  rw [isThere, find]
  cases hl : t.locate p with
  | error fault => simp [bind, Except.bind, Except.toBool]
  | ok l =>
    simp only [bind, Except.bind, Except.ok.injEq, exists_eq_left']
    cases t.get? l <;> simp [Except.toBool]

/-- Nothing goes away. -/
lemma Grows.isThere (h : t.Grows made written t') (hp : t.isThere p = true) :
    t'.isThere p = true := by
  obtain ⟨l, hl, hthere⟩ := isThere_iff.mp hp
  refine isThere_iff.mpr ⟨l, h.toExtends.locate hl, ?_⟩
  rcases h.changedOnly l with hsame | ⟨-, -, hmade⟩ | ⟨-, -, e, -, hwritten⟩
  · rwa [hsame]
  · simp [hmade]
  · simp [hwritten]

end FileTree

namespace Settings

variable {made written : List Location} {t t' : FileTree} {env : Environment} {asked : Text}
  {chosen : Option Text} {m : Machine} {f : Flags}

/-- The file that is chosen is there. -/
lemma isThere_of_choose {p : Text} (h : choose env t asked = .ok (some p)) :
    t.isThere p = true := by
  rw [choose] at h
  split_ifs at h <;> cases h <;> assumption

lemma isThere_of_choose_none (h : choose env t asked = .ok none) :
    t.isThere defaultFile = false := by
  rw [choose] at h
  split_ifs at h with _ _ _ _ hthere
  · cases h
  · cases h
  · cases h
  · exact Bool.eq_false_iff.mpr hthere

lemma choose_of_grows (hgrows : t.Grows made written t') (h : choose env t asked = .ok chosen)
    (hdefault : chosen = none → t'.isThere defaultFile = false) :
    choose env t' asked = .ok chosen := by
  have hkept : ∀ {p : Text} {e : Failure},
      (if t.isThere p then .ok (some p) else .error e : Except Failure (Option Text)) =
        .ok chosen →
      (if t'.isThere p then .ok (some p) else .error e : Except Failure (Option Text)) =
        .ok chosen := by
    intro p e h
    split_ifs at h with hthere
    rwa [if_pos (hgrows.isThere hthere)]
  rw [choose] at h ⊢
  by_cases hasked : (!asked.isEmpty) = true
  · rw [if_pos hasked] at h ⊢
    exact hkept h
  · rw [if_neg hasked] at h ⊢
    by_cases hnamed : (!(env fileVariable).isEmpty) = true
    · rw [if_pos hnamed] at h ⊢
      exact hkept h
    · rw [if_neg hnamed] at h ⊢
      by_cases hthere : t.isThere defaultFile = true
      · rw [if_pos hthere] at h
        rwa [if_pos (hgrows.isThere hthere)]
      · rw [if_neg hthere] at h
        have hnone : t'.isThere defaultFile = false := hdefault (Except.ok.inj h).symm
        rwa [hnone]

/-- A tree that grows elsewhere has the same settings. -/
lemma load_of_grows (hgrows : t.Grows made written t') (h : choose env t asked = .ok chosen)
    (hdefault : chosen = none → t'.isThere defaultFile = false)
    (hchosen : ∀ p, chosen = some p → resolve t.here p ∉ written) :
    load env t' asked = load env t asked := by
  rw [load, load, h, choose_of_grows hgrows h hdefault, hgrows.toExtends.here]
  cases chosen with
  | none => rfl
  | some p =>
    obtain ⟨l, hl, hthere⟩ := FileTree.isThere_iff.mp (isThere_of_choose h)
    obtain ⟨-, -, rfl⟩ := FileTree.locate_eq_ok.mp hl
    have hread : t'.read p = t.read p := hgrows.read hl hthere (hchosen p rfl)
    simp only [bind, Except.bind, hread]

lemma ofRun_of_grows (hgrows : t.Grows made written t')
    (h : choose m.environment t f.config = .ok chosen)
    (hdefault : chosen = none → t'.isThere defaultFile = false)
    (hchosen : ∀ p, chosen = some p → resolve t.here p ∉ written) :
    ofRun m t' f = ofRun m t f := by
  rw [ofRun, ofRun, load_of_grows hgrows h hdefault hchosen]

/-- A run that has settings has chosen a file for them, or none. -/
lemma choose_of_ofRun {settings : Settings} (h : ofRun m t f = .ok settings) :
    ∃ chosen, choose m.environment t f.config = .ok chosen := by
  rw [ofRun, Result.bind_eq_ok] at h
  obtain ⟨x, hload, -⟩ := h
  rw [Result.mapError_eq_ok, load, Result.bind_eq_ok] at hload
  obtain ⟨chosen, hchosen, -⟩ := hload
  exact ⟨chosen, hchosen⟩

end Settings

/-- An output file is not called like the settings file. -/
lemma append_ne_defaultFile {suffix : Text}
    (h : (∃ mode : OutputMode, suffix = mode.suffix) ∨ ∃ format : Format, suffix = format.suffix)
    (x : Text) : x ++ suffix ≠ Settings.defaultFile := by
  intro heq
  have hsuffix : suffix <:+ Settings.defaultFile := heq ▸ List.suffix_append x suffix
  revert hsuffix
  rcases h with ⟨mode, rfl⟩ | ⟨format, rfl⟩
  · cases mode <;> decide
  · cases format <;> decide

/-- A build does not bring a settings file into being, unless its output goes into a directory of
that name. -/
lemma Job.isThere_defaultFile {job : Job} {t t' : FileTree} {inputs : List Text}
    (hsound : t.Sound) (hgrows : t.Grows (job.directories t inputs) (job.targets t inputs) t')
    (hdatabase : job.database? t = none) (hnone : t.isThere Settings.defaultFile = false)
    (hfresh : ¬ t.here ++ [Settings.defaultFile] <+: resolve t.here job.settings.outDir) :
    t'.isThere Settings.defaultFile = false := by
  have hplace : ∀ here, resolve here Settings.defaultFile = here ++ [Settings.defaultFile] := by
    intro here
    rw [resolve_of_not_mem (by decide)]
    exact follow_proper ⟨by decide, by decide, by decide⟩ here
  have htakes : ∀ c ∈ components Settings.defaultFile, FileTree.Takes c := by
    intro c hc
    obtain rfl : c = Settings.defaultFile := List.mem_singleton.mp hc
    exact ⟨by decide, by decide⟩
  have hlocate : t.locate Settings.defaultFile = .ok (t.here ++ [Settings.defaultFile]) := by
    rw [← hplace]
    refine hsound.locate_clean htakes ?_
    rw [hplace, List.dropLast_concat]
    exact hsound.here
  have hfree : t.get? (t.here ++ [Settings.defaultFile]) = none := by
    by_contra hthere
    rw [FileTree.isThere_iff.mpr ⟨_, hlocate, hthere⟩] at hnone
    cases hnone
  have hdirectory : ∀ {l}, t.get? l = some .directory →
      ¬ t.here ++ [Settings.defaultFile] <+: l := by
    intro l hl habove
    rw [hsound.rooted hl _ habove] at hfree
    cases hfree
  rw [← Bool.not_eq_true, FileTree.isThere_iff]
  rintro ⟨l, hl, hthere⟩
  have hl' := hgrows.toExtends.locate hlocate
  rw [hl] at hl'
  obtain rfl := Except.ok.inj hl'
  -- The place is free, so no directory of the tree is at it or below.
  rcases hgrows.changedOnly (t.here ++ [Settings.defaultFile]) with
    hsame | ⟨hmade, -⟩ | ⟨hwritten, -⟩
  · exact hthere (hsame.trans hfree)
  · obtain ⟨v, hv, habove | habove⟩ := Job.prefix_of_mem_directories hmade
    · obtain ⟨-, -, o, ho⟩ := Job.mem_compiled.mp hv
      rw [homeOf] at habove
      split_ifs at habove
      · exact hdirectory (directory_of_compileFile ho) habove
      · exact hfresh habove
    · exact hdirectory hsound.here habove
  · obtain ⟨v, -, suffix, hsuffix, hl⟩ := Job.mem_targets hdatabase hwritten
    obtain ⟨-, hname⟩ := List.append_singleton_inj.mp hl
    exact append_ne_defaultFile hsuffix _ hname.symm

end SheetFormula
