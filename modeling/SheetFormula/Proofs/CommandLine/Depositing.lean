import SheetFormula.Proofs.CommandLine.Writing

/-!
# Output in growing trees

The directory that output goes to can be made at any time in the course of a build, or at no time.
In all trees that come from one by such a build, making it succeeds, or fails at the same place, and
so does writing output to it. The trees change together.
-/

namespace SheetFormula

open SheetFormula.Path Session

namespace FileTree

variable {made written : List Location} {start t t' u u' : FileTree} {p : Text} {l : Location}

/-! ### Paths that output can be written to -/

/-- The directory of a path can be made, and then the path can be followed. -/
def Prepares (t : FileTree) (p : Text) : Prop :=
  ∃ t', t.makeDirectory (dir p) = .ok t' ∧ ∀ x ∈ way t.here p, t'.get? x = some .directory

/-- A path that output can be written to however far a tree has grown: no file comes to stand where
a directory is wanted, and no directory where the output goes. -/
structure Receives (made written : List Location) (t : FileTree) (p : Text) : Prop where
  prepared : t.Prepares p
  directories : ∀ k ∈ chain t.here (dir p), k ∈ written → t.get? k = some .directory
  place : resolve t.here p ∈ made → t.get? (resolve t.here p) ≠ none

/-- The directory of such a path can be made at any time. -/
lemma Receives.makeDirectory (hp : start.Receives made written p)
    (h : start.Grows made written t) :
    ∃ t', t.makeDirectory (dir p) = .ok t' ∧ t'.here = start.here ∧
      (∀ k, t'.get? k = if k ∈ chain start.here (dir p) then some .directory else t.get? k) ∧
      ∀ x ∈ way start.here p, t'.get? x = some .directory := by
  obtain ⟨ready, hready, hway⟩ := hp.prepared
  have hfree : ∀ k ∈ chain start.here (dir p), t.get? k = none ∨ t.get? k = some .directory := by
    intro k hk
    rcases h.changedOnly k with hsame | ⟨-, -, hmade⟩ | ⟨hwritten, hfile, -⟩
    · rw [hsame]
      exact free_of_makeDirectory hready hk
    · exact .inr hmade
    · exact absurd (hp.directories k hk hwritten) hfile
  obtain ⟨t', ht'⟩ := makeDirectory_of_extends hready h.toExtends hfree
  have hget : ∀ k, t'.get? k =
      if k ∈ chain start.here (dir p) then some .directory else t.get? k := by
    intro k
    rw [get_makeDirectory ht', h.toExtends.here]
  refine ⟨t', ht', (extends_makeDirectory ht').here.trans h.toExtends.here, hget, ?_⟩
  intro x hx
  have hthere := hway x hx
  rw [get_makeDirectory hready] at hthere
  rw [hget]
  split_ifs at hthere ⊢
  · rfl
  · exact h.toExtends.directory x hthere

/-- Whether a directory is in the way of the output does not change. -/
lemma Receives.get_eq_directory (hp : start.Receives made written p)
    (h : start.Grows made written t) :
    t.get? (resolve start.here p) = some .directory ↔
      start.get? (resolve start.here p) = some .directory := by
  constructor
  · intro hdirectory
    rcases h.changedOnly (resolve start.here p) with
      hsame | ⟨hmade, hnone, -⟩ | ⟨-, -, e, he, hfile⟩
    · rwa [← hsame]
    · exact absurd hnone (hp.place hmade)
    · rw [hdirectory] at hfile
      exact absurd (Option.some.inj hfile).symm he
  · exact h.toExtends.directory _

/-! ### Trees that change together -/

/-- Two trees change together: what stands in a place is the same in both, or has been changed in
neither. -/
def ChangeTogether (t t' u u' : FileTree) : Prop :=
  ∀ l, u'.get? l = u.get? l ∨ u.get? l = t.get? l ∧ u'.get? l = t'.get? l

namespace ChangeTogether

lemma refl (t t' : FileTree) : ChangeTogether t t' t t' := fun _ => .inr ⟨rfl, rfl⟩

lemma trans {v v' : FileTree} (h : ChangeTogether t t' u u') (h' : ChangeTogether u u' v v') :
    ChangeTogether t t' v v' := by
  intro l
  rcases h' l with hsame | ⟨hv, hv'⟩
  · exact .inl hsame
  · rcases h l with hsame | ⟨hu, hu'⟩
    · exact .inl (by rw [hv', hv, hsame])
    · exact .inr ⟨hv.trans hu, hv'.trans hu'⟩

lemma put {e : Entry} (hl : l ≠ []) : ChangeTogether t t' (t.put l e) (t'.put l e) := by
  intro k
  rw [get_put hl, get_put hl]
  split_ifs
  · exact .inl rfl
  · exact .inr ⟨rfl, rfl⟩

end ChangeTogether

lemma foldlM_step_congr {cs : List Text} (h : ∀ x ∈ wayFrom l cs, t'.get? x = t.get? x) :
    cs.foldlM t'.step l = cs.foldlM t.step l := by
  induction cs generalizing l with
  | nil => rfl
  | cons c rest ih =>
    obtain ⟨hl, hway⟩ := List.forall_mem_cons.mp h
    have hstep : t'.step l c = t.step l c := by rw [step, step, hl]
    rw [List.foldlM_cons, List.foldlM_cons, hstep]
    cases hfirst : t.step l c with
    | error fault => rfl
    | ok k =>
      obtain ⟨-, -, rfl⟩ := step_eq_ok.mp hfirst
      exact ih hway

/-- Where a path leads to depends on what is on the way only. -/
lemma locate_congr (hhere : t'.here = t.here) (h : ∀ x ∈ way t.here p, t'.get? x = t.get? x) :
    t'.locate p = t.locate p := by
  have hfold : (Text.splitOn slash p).foldlM t'.step (if isAbsolute p then [] else t.here) =
      (Text.splitOn slash p).foldlM t.step (if isAbsolute p then [] else t.here) :=
    foldlM_step_congr h
  rw [locate, locate, hhere, hfold]

/-- One directory is made in two trees with the same result, if what is on the way is a directory in
both, and its place is free in both or has the same in it. -/
lemma makeOne_together {q : Text} (hhere : t'.here = t.here)
    (hway : ∀ x ∈ way t.here q, t.get? x = some .directory ∧ t'.get? x = some .directory)
    (hplace : t'.get? (resolve t.here q) = t.get? (resolve t.here q) ∨
      (t.get? (resolve t.here q) = none ∨ t.get? (resolve t.here q) = some .directory) ∧
        (t'.get? (resolve t.here q) = none ∨ t'.get? (resolve t.here q) = some .directory)) :
    (∃ u u', t.makeOne q = .ok u ∧ t'.makeOne q = .ok u') ∨
      ∃ e, t.makeOne q = .error e ∧ t'.makeOne q = .error e := by
  have hlocate : t'.locate q = t.locate q :=
    locate_congr hhere fun x hx => (hway x hx).2.trans (hway x hx).1.symm
  rw [makeOne, makeOne, hlocate]
  cases hl : t.locate q with
  | error fault => exact .inr ⟨_, rfl, rfl⟩
  | ok l =>
    obtain ⟨-, -, rfl⟩ := locate_eq_ok.mp hl
    simp only
    rcases hplace with hsame | ⟨hfree | hfree, hfree' | hfree'⟩
    · rw [hsame]
      cases t.get? (resolve t.here q) with
      | none => exact .inl ⟨_, _, rfl, rfl⟩
      | some e =>
        cases e with
        | directory => exact .inl ⟨_, _, rfl, rfl⟩
        | file content => exact .inr ⟨_, rfl, rfl⟩
        | database tables => exact .inr ⟨_, rfl, rfl⟩
    all_goals
      rw [hfree, hfree']
      exact .inl ⟨_, _, rfl, rfl⟩

/-- Failures with the same error that come with trees that have changed together. -/
def FailTogether (t t' : FileTree) (x y : FileError × FileTree) : Prop :=
  x.1 = y.1 ∧ ChangeTogether t t' x.2 y.2

/-- Directories are made in two trees with the same result, if each path leads through directories
of both or through paths before it, and its place is free in both or has the same in it. -/
lemma makeEach_together {qs : List Text} (hhere : t'.here = t.here)
    (hway : ∀ (i : Nat) (q : Text), qs[i]? = some q → ∀ x ∈ way t.here q,
      t.get? x = some .directory ∧ t'.get? x = some .directory ∨
        ∃ j < i, ∃ r, qs[j]? = some r ∧ x = resolve t.here r)
    (hplaces : ∀ k ∈ qs.map (resolve t.here), t'.get? k = t.get? k ∨
      (t.get? k = none ∨ t.get? k = some .directory) ∧
        (t'.get? k = none ∨ t'.get? k = some .directory)) :
    Result.Alike (ChangeTogether t t') (FailTogether t t') (t.makeEach qs) (t'.makeEach qs) := by
  induction qs generalizing t t' with
  | nil => exact .refl t t'
  | cons q rest ih =>
    obtain ⟨hplace, hothers⟩ := List.forall_mem_cons.mp hplaces
    have hfirst : ∀ x ∈ way t.here q, t.get? x = some .directory ∧ t'.get? x = some .directory := by
      intro x hx
      rcases hway 0 q rfl x hx with hboth | ⟨j, hj, -⟩
      · exact hboth
      · exact absurd hj (Nat.not_lt_zero j)
    rw [makeEach, makeEach]
    rcases makeOne_together hhere hfirst hplace with ⟨u, u', hu, hu'⟩ | ⟨e, he, he'⟩
    · obtain ⟨hhereU, hget, -⟩ := get_makeOne hu
      obtain ⟨hhereU', hget', -⟩ := get_makeOne hu'
      rw [hhere] at hget' hhereU'
      have hstep : ChangeTogether t t' u u' := by
        intro k
        rw [hget k, hget' k]
        split_ifs
        · exact .inl rfl
        · exact .inr ⟨rfl, rfl⟩
      have hnext : Result.Alike (ChangeTogether u u') (FailTogether u u') (u.makeEach rest)
          (u'.makeEach rest) := by
        refine ih (hhereU'.trans hhereU.symm) (fun i r hr x hx => ?_) fun k hk => ?_
        · rw [hhereU] at hx ⊢
          rw [hget x, hget' x]
          -- The place of the first path has become a directory in both.
          by_cases hxq : x = resolve t.here q
          · simp [hxq]
          · rcases hway (i + 1) r hr x hx with ⟨hx, hx'⟩ | ⟨j, hj, r', hr', rfl⟩
            · simp [hxq, hx, hx']
            · cases j with
              | zero => exact absurd (by rw [← Option.some.inj hr']) hxq
              | succ j => exact .inr ⟨j, by omega, r', hr', rfl⟩
        · rw [hhereU] at hk
          rw [hget k, hget' k]
          split_ifs
          · exact .inl rfl
          · exact hothers k hk
      rw [hu, hu']
      refine (hnext.mono fun _ _ => hstep.trans).mono_fail ?_
      rintro x y ⟨herror, htogether⟩
      exact ⟨herror, hstep.trans htogether⟩
    · rw [he, he']
      exact ⟨rfl, .refl t t'⟩

/-- The directory at a path is made with the same result in two trees that have grown from a sound
one, if no file has come to stand where it is wanted. -/
lemma Sound.makeDirectory_together (hsound : start.Sound) (h : start.Grows made written t)
    (h' : start.Grows made written t')
    (hdirectories : ∀ k ∈ chain start.here p, k ∈ written → start.get? k = some .directory) :
    Result.Alike (ChangeTogether t t') (FailTogether t t') (t.makeDirectory p)
      (t'.makeDirectory p) := by
  have hchanged : ∀ {u : FileTree}, start.Grows made written u → ∀ k ∈ chain start.here p,
      u.get? k = start.get? k ∨ start.get? k = none ∧ u.get? k = some .directory := by
    intro u hu k hk
    rcases hu.changedOnly k with hsame | ⟨-, hnone, hmade⟩ | ⟨hwritten, hfile, -⟩
    · exact .inl hsame
    · exact .inr ⟨hnone, hmade⟩
    · exact absurd (hdirectories k hk hwritten) hfile
  have hstart : start.get? (Path.start start.here p) = some .directory := by
    rw [Path.start]
    split_ifs
    · rfl
    · exact hsound.here
  refine makeEach_together (h'.toExtends.here.trans h.toExtends.here.symm) ?_ ?_
  · intro i q hq x hx
    rw [h.toExtends.here] at hx ⊢
    rcases way_onTheWay hq hx with rfl | hbefore
    · exact .inl ⟨h.toExtends.directory _ hstart, h'.toExtends.directory _ hstart⟩
    · exact .inr hbefore
  · intro k hk
    rw [h.toExtends.here] at hk
    rcases hchanged h k hk with hsame | ⟨hnone, hmade⟩
    · rcases hchanged h' k hk with hsame' | ⟨hnone, hmade'⟩
      · exact .inl (hsame'.trans hsame.symm)
      · exact .inr ⟨.inl (hsame.trans hnone), .inr hmade'⟩
    · refine .inr ⟨.inr hmade, ?_⟩
      rcases hchanged h' k hk with hsame' | ⟨-, hmade'⟩
      · exact .inl (hsame'.trans hnone)
      · exact .inr hmade'

/-- Output is written to a path in two trees that have grown from one, with the same result. -/
lemma Receives.deposit (hp : start.Receives made written p) (h : start.Grows made written t)
    (h' : start.Grows made written t') (content : Text) :
    ∃ t₁ t₁', t.makeDirectory (dir p) = .ok t₁ ∧ t'.makeDirectory (dir p) = .ok t₁' ∧
      ChangeTogether t t' t₁ t₁' ∧
      Result.Alike (ChangeTogether t t') Eq (t₁.write p content) (t₁'.write p content) := by
  obtain ⟨t₁, hmake, hhere, hget, hway⟩ := hp.makeDirectory h
  obtain ⟨t₁', hmake', hhere', hget', hway'⟩ := hp.makeDirectory h'
  have htogether : ChangeTogether t t' t₁ t₁' := by
    intro k
    rw [hget, hget']
    split_ifs
    · exact .inl rfl
    · exact .inr ⟨rfl, rfl⟩
  refine ⟨t₁, t₁', hmake, hmake', htogether, ?_⟩
  have hlocate : t₁'.locate p = t₁.locate p := by
    refine locate_congr (hhere'.trans hhere.symm) fun x hx => ?_
    rw [hhere] at hx
    rw [hway x hx, hway' x hx]
  have hdirectory : t₁'.get? (resolve start.here p) = some .directory ↔
      t₁.get? (resolve start.here p) = some .directory := by
    rw [hget, hget']
    split_ifs
    · exact Iff.rfl
    · rw [hp.get_eq_directory h, hp.get_eq_directory h']
  cases hl : t₁.locate p with
  | error fault =>
    simp only [write, hlocate, hl]
    exact rfl
  | ok l =>
    obtain ⟨-, -, rfl⟩ := locate_eq_ok.mp hl
    rw [hhere] at hl
    by_cases hd : t₁.get? (resolve start.here p) = some .directory
    · simp only [write, hlocate, hl, hd, hdirectory.mpr hd]
      exact rfl
    · have hwrite : t₁.write p content = .ok _ := write_eq_ok.mpr ⟨_, hl, hd, rfl⟩
      have hwrite' : t₁'.write p content = .ok _ :=
        write_eq_ok.mpr ⟨_, hlocate.trans hl, mt hdirectory.mp hd, rfl⟩
      rw [hwrite, hwrite']
      exact htogether.trans (.put (ne_nil_of_get hd))

end FileTree

/-! ### Where the output of a build goes -/

namespace Job

variable {job : Job} {t : FileTree} {inputs : List Text} {u : Text}

/-- The directory for the output of all units can be made, if there is one. -/
def CanGather (job : Job) (t : FileTree) : Prop :=
  job.settings.outDir ≠ [] → ∃ t', t.makeDirectory (clean job.settings.outDir) = .ok t'

/-- What is in the directory of a unit's output is not above such a directory, unless it has been a
directory before. -/
lemma directory_of_above (hsound : t.Sound) (hu : u ∈ job.compiled t inputs) {v name : Text}
    (h : homeOf job.settings.outDir t.here v ++ [name] <+: homeOf job.settings.outDir t.here u ∨
      homeOf job.settings.outDir t.here v ++ [name] <+: t.here) :
    t.get? (homeOf job.settings.outDir t.here v ++ [name]) = some .directory := by
  obtain ⟨-, -, o, ho⟩ := mem_compiled.mp hu
  rcases h with habove | habove
  · by_cases hdir : job.settings.outDir = []
    · have hhome := directory_of_compileFile ho
      have hempty : job.settings.outDir.isEmpty = true := by simpa using hdir
      rw [homeOf, homeOf, if_pos hempty, if_pos hempty] at habove
      rw [homeOf, if_pos hempty]
      exact hsound.rooted hhome _ habove
    · have hlength := habove.length_le
      simp only [homeOf, List.isEmpty_iff, if_neg hdir, List.length_append, List.length_cons,
        List.length_nil] at hlength
      omega
  · exact hsound.rooted hsound.here _ habove

lemma mem_targets (hdatabase : job.database? t = none) {l : Location}
    (h : l ∈ job.targets t inputs) :
    ∃ v ∈ job.compiled t inputs, ∃ suffix : Text,
      ((∃ mode : OutputMode, suffix = mode.suffix) ∨ ∃ format : Format, suffix = format.suffix) ∧
      l = homeOf job.settings.outDir t.here v ++ [lastPart (stem v) ++ suffix] := by
  rw [targets, hdatabase] at h
  obtain ⟨v, hv, hl⟩ := List.mem_flatMap.mp h
  refine ⟨v, hv, ?_⟩
  rcases List.mem_cons.mp hl with rfl | hl
  · exact ⟨_, .inl ⟨_, rfl⟩, job.place_eq t.here v⟩
  · obtain ⟨x, hx, rfl⟩ : ∃ x, job.manifestFiles? = some x ∧ x.place t.here v = l := by
      simpa using hl
    refine ⟨_, .inr ⟨x.format, rfl⟩, ?_⟩
    rw [x.place_eq, outDir_of_manifestFiles hx]

lemma prefix_of_mem_directories {l : Location} (h : l ∈ job.directories t inputs) :
    ∃ v ∈ job.compiled t inputs,
      l <+: homeOf job.settings.outDir t.here v ∨ l <+: t.here := by
  obtain ⟨v, hv, hl⟩ := List.mem_flatMap.mp h
  refine ⟨v, hv, ?_⟩
  have habove := prefix_of_mem_chain hl
  rwa [resolve_dir_artifactPath job.options.mode.ending] at habove

/-- The directory of a unit's output can be made, and then the output has a place. -/
lemma prepares (hsound : t.Sound) (hu : u ∈ job.compiled t inputs) (hgather : job.CanGather t)
    {suffix : Text} (hsuffix : Ending suffix) :
    t.Prepares (artifactPath job.settings.outDir u suffix) := by
  obtain ⟨-, -, o, ho⟩ := mem_compiled.mp hu
  by_cases hdir : job.settings.outDir = []
  · obtain ⟨l, -, hlocate, -⟩ := FileTree.locate_of_compileFile ho
    obtain ⟨husable, hway, -⟩ := FileTree.locate_eq_ok.mp hlocate
    have hempty : job.settings.outDir.isEmpty = true := by simpa using hdir
    have hhome : t.get? (resolve t.here (clean (front u))) = some .directory := by
      rw [resolve_clean]
      exact directory_of_compileFile ho
    refine ⟨t, ?_, fun x hx => hway x ?_⟩
    · rw [dir_artifactPath hsuffix, if_pos hempty]
      refine hsound.makeDirectory_of_directory (fun c hc => ?_) hhome
      rw [components_clean] at hc
      exact husable.takes_front (mem_splitOn_of_mem_components hc)
    · rw [artifactPath, if_pos hempty] at hx
      have hfront : front (stem u ++ suffix) = front u := by
        rw [front_append hsuffix.noSlash, front_stem]
      rwa [way_congr hfront] at hx
  · obtain ⟨t', ht'⟩ := hgather hdir
    have hempty : ¬ job.settings.outDir.isEmpty = true := by simpa using hdir
    refine ⟨t', ?_, fun x hx => ?_⟩
    · rw [dir_artifactPath hsuffix, if_neg hempty, ht']
    · have hsound' := hsound.makeDirectory ht'
      have hhome := hsound.get_of_makeDirectory ht'
      rw [artifactPath_of_ne_nil hsuffix _ u hdir] at hx
      rcases prefix_of_mem_way_clean hx with habove | habove
      · rw [resolve_append_proper hdir (hsuffix.proper _) (slash_not_mem_name hsuffix u),
          List.dropLast_concat, ← resolve_clean] at habove
        exact hsound'.rooted hhome x habove
      · refine hsound'.rooted ?_ x habove
        exact (FileTree.extends_makeDirectory ht').directory _ hsound.here

/-- No output goes where a directory for output is wanted, unless there has been one before. -/
lemma directory_of_mem_targets (hsound : t.Sound) (hu : u ∈ job.compiled t inputs)
    (hdatabase : job.database? t = none) {suffix : Text} (hsuffix : Ending suffix) {k : Location}
    (hk : k ∈ chain t.here (dir (artifactPath job.settings.outDir u suffix)))
    (hwritten : k ∈ job.targets t inputs) : t.get? k = some .directory := by
  obtain ⟨v, -, suffix', -, rfl⟩ := mem_targets hdatabase hwritten
  have habove := prefix_of_mem_chain hk
  rw [resolve_dir_artifactPath hsuffix] at habove
  exact directory_of_above hsound hu habove

/-- Output can be written at any time in the course of a build without a database. -/
lemma receives (hsound : t.Sound) (hu : u ∈ job.compiled t inputs) (hgather : job.CanGather t)
    (hdatabase : job.database? t = none) {suffix : Text} (hsuffix : Ending suffix) :
    t.Receives (job.directories t inputs) (job.targets t inputs)
      (artifactPath job.settings.outDir u suffix) := by
  refine ⟨prepares hsound hu hgather hsuffix, fun k => ?_, fun hmade => ?_⟩
  · exact directory_of_mem_targets hsound hu hdatabase hsuffix
  · rw [resolve_artifactPath hsuffix] at hmade ⊢
    obtain ⟨v, hv, habove⟩ := prefix_of_mem_directories hmade
    rw [directory_of_above hsound hv habove]
    simp

/-- The directory of a unit's output is made with the same result at all times in the course of a
build without a database. -/
lemma makeDirectory_together {a a' : FileTree} {suffix : Text} (hsound : t.Sound)
    (hu : u ∈ job.compiled t inputs) (hdatabase : job.database? t = none)
    (hsuffix : Ending suffix)
    (h : t.Grows (job.directories t inputs) (job.targets t inputs) a)
    (h' : t.Grows (job.directories t inputs) (job.targets t inputs) a') :
    Result.Alike (FileTree.ChangeTogether a a') (FileTree.FailTogether a a')
      (a.makeDirectory (dir (artifactPath job.settings.outDir u suffix)))
      (a'.makeDirectory (dir (artifactPath job.settings.outDir u suffix))) :=
  hsound.makeDirectory_together h h' fun _ => directory_of_mem_targets hsound hu hdatabase hsuffix

/-- What can be made at some time can be made at the start. -/
lemma canGather_of_ok {a made : FileTree} {suffix : Text} (hsound : t.Sound)
    (hu : u ∈ job.compiled t inputs) (hdatabase : job.database? t = none)
    (hsuffix : Ending suffix)
    (h : t.Grows (job.directories t inputs) (job.targets t inputs) a)
    (hmake : a.makeDirectory (dir (artifactPath job.settings.outDir u suffix)) = .ok made) :
    job.CanGather t := by
  intro hdir
  obtain ⟨t', _, ht', -⟩ | ⟨_, _, -, hfails, -⟩ :=
    (makeDirectory_together hsound hu hdatabase hsuffix .refl h).cases_on
  · rw [dir_artifactPath hsuffix, if_neg (by simpa using hdir)] at ht'
    exact ⟨t', ht'⟩
  · rw [hmake] at hfails
    cases hfails

end Job

end SheetFormula
