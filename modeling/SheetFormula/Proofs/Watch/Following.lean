import SheetFormula.Proofs.Walk
import SheetFormula.Proofs.Watch.Debouncing

/-!
# Directories that are watched

A watcher starts with some directories and all that are visible below them. Later it goes on to
watch every directory whose creation it is told of, with all that are visible below it. Nobody asks
whether the created directory is hidden itself, so hidden directories come to be watched after all.
-/

namespace SheetFormula

/-- The location of the directory at a path, if there is one. -/
def FileTree.directoryAt? (t : FileTree) (p : Text) : Option Location :=
  (t.locate p).toOption.filter fun l => t.get? l = some .directory

lemma FileTree.directoryAt_eq_some {t : FileTree} {p : Text} {l : Location} :
    t.directoryAt? p = some l ↔ t.locate p = .ok l ∧ t.get? l = some .directory := by
  rw [directoryAt?, Option.filter_eq_some_iff, decide_eq_true_iff]
  cases t.locate p <;> simp [Except.toOption]

lemma FileTree.any_isDirectory_find (t : FileTree) (p : Text) :
    (t.find p).toOption.any Entry.isDirectory = (t.directoryAt? p).isSome := by
  rw [find, directoryAt?]
  cases t.locate p with
  | error fault => rfl
  | ok l =>
    simp only [bind, Except.bind]
    cases hget : t.get? l with
    | none => simp [Except.toOption, hget]
    | some e => cases e <;> simp [Except.toOption, Entry.isDirectory, hget]

/-- The directories that a walk from a directory visits are below it, under visible names. -/
lemma FileTree.mem_directoriesBelow {t : FileTree} {root : Text} {dir l : Location} :
    l ∈ (t.directoriesBelow root dir).map Prod.fst ↔
      l = dir ∨ ∃ names, (names, Entry.directory) ∈ t.visible dir ∧ l = dir ++ names := by
  rw [directoriesBelow, List.map_cons, List.mem_cons, List.map_filterMap]
  refine or_congr_right ?_
  rw [List.mem_filterMap]
  constructor
  · rintro ⟨⟨names, e⟩, hmem, hl⟩
    cases e with
    | directory => exact ⟨names, hmem, (Option.some.inj hl).symm⟩
    | file content => cases hl
    | database tables => cases hl
  · rintro ⟨names, hmem, rfl⟩
    exact ⟨_, hmem, rfl⟩

lemma FileTree.isHidden_of_mem_visible {t : FileTree} {dir names : Location}
    (h : (names, Entry.directory) ∈ t.visible dir) : ∀ c ∈ names, isHidden c = false := by
  simpa [Entry.isDirectory] using (mem_visible.mp h).shown

namespace Watcher

variable {counts : Text → Bool} {w w' : Watcher} {t : FileTree} {l : Location}

def places (w : Watcher) : List Location := w.watched.map Prod.fst

namespace Notice

/-- The location of the directory that a notice tells to have been created. -/
def created? : Notice → Option Location
  | event tree path changes =>
    if changes.contains .create then tree.directoryAt? path else none
  | expiry _ | stop => none

/-- The directories that a notice leads to: a created one, and all that are visible below it. -/
def found : Notice → List Location
  | event tree path changes =>
    ((event tree path changes).created?.toList.flatMap (tree.directoriesBelow path)).map Prod.fst
  | expiry _ | stop => []

end Notice

/-! ### What one notice adds -/

lemma mem_places_foldl_add (dirs : List (Location × Text)) (w : Watcher) :
    l ∈ (dirs.foldl add w).places ↔ l ∈ w.places ∨ l ∈ dirs.map Prod.fst := by
  induction dirs generalizing w with
  | nil => simp
  | cons dir rest ih =>
    have hadd : l ∈ (w.add dir).places ↔ l ∈ w.places ∨ l = dir.1 := by
      rw [add]
      split
      · rename_i hknown
        obtain ⟨x, hx, heq⟩ := List.any_eq_true.mp hknown
        have hmem : dir.1 ∈ w.places := List.mem_map.mpr ⟨x, hx, of_decide_eq_true heq⟩
        constructor
        · exact Or.inl
        · rintro (hl | rfl)
          · exact hl
          · exact hmem
      · simp [places]
    rw [List.foldl_cons, ih, hadd, List.map_cons, List.mem_cons, or_assoc]

/-- What watching a path adds: nothing if there is no directory. -/
lemma mem_places_addBelow {root : Text} (h : w.addBelow t root = .ok w') :
    l ∈ w'.places ↔ l ∈ w.places ∨
      ∃ dir, t.directoryAt? root = some dir ∧ l ∈ (t.directoriesBelow root dir).map Prod.fst := by
  rw [addBelow] at h
  split at h
  · cases h
  · rename_i dir hlocate
    split at h
    · cases h
    · rename_i hget
      cases h
      have hdir : t.directoryAt? root = some dir :=
        FileTree.directoryAt_eq_some.mpr ⟨hlocate, hget⟩
      rw [mem_places_foldl_add, hdir]
      simp
    · rename_i e hother hget
      cases h
      have hnone : t.directoryAt? root = none := by
        rw [Option.eq_none_iff_forall_ne_some]
        intro l hl
        obtain ⟨hl, hdirectory⟩ := FileTree.directoryAt_eq_some.mp hl
        obtain rfl := Except.ok.inj (hlocate.symm.trans hl)
        exact hother (Option.some.inj (hget.symm.trans hdirectory))
      simp [hnone]

lemma places_expire (w : Watcher) (path : Text) : (w.expire path).places = w.places := by
  rw [expire]
  split <;> rfl

lemma places_schedule (w : Watcher) (path : Text) : (w.schedule path).places = w.places := by
  rw [schedule]
  split <;> rfl

/-- A notice adds the directories that it leads to. -/
lemma mem_places_take (n : Notice) :
    l ∈ (w.take counts n).places ↔ l ∈ w.places ∨ l ∈ n.found := by
  cases n with
  | event tree path changes =>
    rw [take, Notice.found]
    cases hcreated : (Notice.event tree path changes).created? with
    | some dir =>
      rw [Notice.created?, Option.ite_none_right_eq_some] at hcreated
      obtain ⟨hcreate, hdir⟩ := hcreated
      obtain ⟨hlocate, hget⟩ := FileTree.directoryAt_eq_some.mp hdir
      have hadd : w.addBelow tree path = .ok ((tree.directoriesBelow path dir).foldl add w) := by
        simp only [addBelow, hlocate, hget]
      have hhandle : w.handle tree counts path changes =
          (tree.directoriesBelow path dir).foldl add w := by
        simp only [handle, hcreate, FileTree.any_isDirectory_find, hdir, hadd, Bool.true_or,
          Bool.not_true, Bool.false_eq_true, if_false, Option.isSome_some, Bool.and_self, if_true]
      rw [hhandle, mem_places_foldl_add]
      simp
    | none =>
      have hnot : (changes.contains .create &&
          (tree.find path).toOption.any Entry.isDirectory) = false := by
        rw [FileTree.any_isDirectory_find]
        rw [Notice.created?] at hcreated
        split at hcreated
        · rw [hcreated, Option.isSome_none, Bool.and_false]
        · rename_i hcreate
          rw [Bool.eq_false_iff.mpr hcreate, Bool.false_and]
      have hplaces : (w.handle tree counts path changes).places = w.places := by
        rw [handle, hnot]
        split
        · rfl
        · rw [if_neg (by simp)]
          split
          · exact places_schedule w path
          · rfl
      rw [hplaces]
      simp
  | expiry path => simp [take, places_expire, Notice.found]
  | stop => simp [take, stop, places, Notice.found]

lemma created_mem_found {n : Notice} (h : n.created? = some l) : l ∈ n.found := by
  cases n with
  | event tree path changes =>
    rw [Notice.found, h]
    simpa using FileTree.mem_directoriesBelow.mpr (.inl rfl)
  | expiry path => cases h
  | stop => cases h

/-! ### Ways to a directory -/

/-- A directory is reached from the roots: through visible names, or through names whose creation
has been told. -/
inductive Reached (roots created : List Location) : Location → Prop
  | root {l : Location} (hroot : l ∈ roots) : Reached roots created l
  | visible {l : Location} {c : Text} (hparent : Reached roots created l)
    (hvisible : FileTree.isHidden c = false) : Reached roots created (l ++ [c])
  | told {l : Location} {c : Text} (hparent : Reached roots created l)
    (htold : l ++ [c] ∈ created) : Reached roots created (l ++ [c])

namespace Reached

variable {roots created more : List Location}

lemma mono (h : Reached roots created l) (hmore : ∀ x ∈ created, x ∈ more) :
    Reached roots more l := by
  induction h with
  | root hroot => exact .root hroot
  | visible _ hvisible ih => exact .visible ih hvisible
  | told _ htold ih => exact .told ih (hmore _ htold)

/-- Creations that are told make no difference if none of them is hidden. -/
lemma of_visible (h : Reached roots created l)
    (hvisible : ∀ k c, k ++ [c] ∈ created → FileTree.isHidden c = false) :
    Reached roots [] l := by
  induction h with
  | root hroot => exact .root hroot
  | visible _ hc ih => exact .visible ih hc
  | told _ htold ih => exact .visible ih (hvisible _ _ htold)

lemma append {names : Location} (h : Reached roots created l)
    (hnames : ∀ c ∈ names, FileTree.isHidden c = false) : Reached roots created (l ++ names) := by
  induction names generalizing l with
  | nil => simpa using h
  | cons c rest ih =>
    obtain ⟨hc, hrest⟩ := List.forall_mem_cons.mp hnames
    simpa using ih (h.visible hc) hrest

lemma directoriesBelow {dir : Location} (h : Reached roots created dir) (root : Text)
    (hl : l ∈ (t.directoriesBelow root dir).map Prod.fst) : Reached roots created l := by
  rcases FileTree.mem_directoriesBelow.mp hl with rfl | ⟨names, hmem, rfl⟩
  · exact h
  · exact h.append (FileTree.isHidden_of_mem_visible hmem)

/-- The names on the way from a root, of which the hidden ones have been told. -/
lemma exists_names (h : Reached roots created l) :
    ∃ r ∈ roots, ∃ names, l = r ++ names ∧ ∀ before c rest, names = before ++ c :: rest →
      FileTree.isHidden c = true → r ++ before ++ [c] ∈ created := by
  have hsplit : ∀ {names before rest : Location} {c d : Text},
      names ++ [d] = before ++ c :: rest →
        before = names ∧ c = d ∨ ∃ rest', names = before ++ c :: rest' := by
    intro names before rest c d heq
    rcases List.eq_nil_or_concat rest with rfl | ⟨rest', last, rfl⟩
    · obtain ⟨rfl, rfl⟩ := List.append_singleton_inj.mp heq
      exact .inl ⟨rfl, rfl⟩
    · rw [List.concat_eq_append, ← List.cons_append, ← List.append_assoc] at heq
      exact .inr ⟨rest', (List.append_singleton_inj.mp heq).1⟩
  induction h with
  | root hroot => exact ⟨_, hroot, [], by simp, by simp⟩
  | @visible l d _ hvisible ih =>
    obtain ⟨r, hr, names, rfl, hnames⟩ := ih
    refine ⟨r, hr, names ++ [d], by simp, ?_⟩
    intro before c rest heq hhidden
    rcases hsplit heq with ⟨rfl, rfl⟩ | ⟨rest', hrest⟩
    · rw [hvisible] at hhidden
      cases hhidden
    · exact hnames before c rest' hrest hhidden
  | @told l d _ htold ih =>
    obtain ⟨r, hr, names, rfl, hnames⟩ := ih
    refine ⟨r, hr, names ++ [d], by simp, ?_⟩
    intro before c rest heq hhidden
    rcases hsplit heq with ⟨rfl, rfl⟩ | ⟨rest', hrest⟩
    · exact htold
    · exact hnames before c rest' hrest hhidden

/-- Where nothing has been told, all names on the way are visible. -/
lemma nil_iff :
    Reached roots [] l ↔
      ∃ r ∈ roots, ∃ names, l = r ++ names ∧ ∀ c ∈ names, FileTree.isHidden c = false := by
  constructor
  · intro h
    obtain ⟨r, hr, names, rfl, hnames⟩ := h.exists_names
    refine ⟨r, hr, names, rfl, fun c hc => ?_⟩
    obtain ⟨before, rest, heq⟩ := List.append_of_mem hc
    by_contra hhidden
    exact List.not_mem_nil (hnames before c rest heq (by simpa using hhidden))
  · rintro ⟨r, hr, names, rfl, hnames⟩
    exact (root hr).append hnames

end Reached

/-! ### Watching -/

/-- The directories among some paths. -/
def rootsIn (t : FileTree) (dirs : List Text) : List Location := dirs.filterMap t.directoryAt?

/-- Notices of creations come from watched directories. -/
def Delivered (counts : Text → Bool) : Watcher → List Notice → Prop
  | _, [] => True
  | w, n :: rest =>
    (∀ l, n.created? = some l → ∃ parent ∈ w.places, ∃ c, l = parent ++ [c]) ∧
      Delivered counts (w.take counts n) rest

/-- What has been started watches the roots and all that is visible below them. -/
lemma mem_places_start {dirs : List Text} (h : start t dirs w = (w', none)) :
    l ∈ w'.places ↔ l ∈ w.places ∨ ∃ dir ∈ dirs, ∃ r, t.directoryAt? dir = some r ∧
      l ∈ (t.directoriesBelow dir r).map Prod.fst := by
  induction dirs generalizing w with
  | nil =>
    cases h
    simp
  | cons dir rest ih =>
    rw [start] at h
    cases hadd : w.addBelow t dir with
    | error e =>
      rw [hadd] at h
      cases h
    | ok w₁ =>
      rw [hadd] at h
      have htold : l ∈ (w₁.tell .info ("watching " ++ dir)).places ↔ l ∈ w₁.places := Iff.rfl
      rw [ih h, htold, mem_places_addBelow hadd]
      simp [or_assoc]

variable {roots created : List Location}

/-- What one notice keeps: every watched directory is reached. -/
lemma reached_take {n : Notice} (h : ∀ l ∈ w.places, Reached roots created l)
    (hdelivered : ∀ l, n.created? = some l → ∃ parent ∈ w.places, ∃ c, l = parent ++ [c]) :
    ∀ l ∈ (w.take counts n).places, Reached roots (created ++ n.created?.toList) l := by
  intro l hl
  rcases mem_places_take n |>.mp hl with hl | hl
  · exact (h l hl).mono fun x hx => List.mem_append_left _ hx
  · cases n with
    | event tree path changes =>
      rw [Notice.found] at hl
      cases hcreated : (Notice.event tree path changes).created? with
      | none => simp [hcreated] at hl
      | some dir =>
        obtain ⟨parent, hparent, c, rfl⟩ := hdelivered dir hcreated
        have hnew : Reached roots (created ++ [parent ++ [c]]) (parent ++ [c]) :=
          .told ((h parent hparent).mono fun x hx => List.mem_append_left _ hx) (by simp)
        rw [hcreated] at hl
        exact hnew.directoriesBelow path (by simpa using hl)
    | expiry path => cases hl
    | stop => cases hl

lemma reached_takeAll {notices : List Notice} (h : ∀ l ∈ w.places, Reached roots created l)
    (hdelivered : Delivered counts w notices) :
    ∀ l ∈ (w.takeAll counts notices).places,
      Reached roots (created ++ notices.filterMap Notice.created?) l := by
  induction notices generalizing w created with
  | nil => simpa [takeAll] using h
  | cons n rest ih =>
    obtain ⟨hn, hrest⟩ := hdelivered
    have hall := ih (reached_take h hn) hrest
    have hcreated : (n :: rest).filterMap Notice.created? =
        n.created?.toList ++ rest.filterMap Notice.created? := by
      cases hc : n.created? <;> simp [hc]
    rw [hcreated, ← List.append_assoc]
    exact hall

/-- What is watched stays so, and all that a notice leads to is watched from then on. -/
lemma mem_places_takeAll (notices : List Notice) :
    l ∈ (w.takeAll counts notices).places ↔ l ∈ w.places ∨ ∃ n ∈ notices, l ∈ n.found := by
  induction notices generalizing w with
  | nil => simp [takeAll]
  | cons n rest ih =>
    have htail : w.takeAll counts (n :: rest) = (w.take counts n).takeAll counts rest := rfl
    rw [htail, ih, mem_places_take]
    simp [or_assoc]

/-- Hidden directories are watched from their creation on. A watcher starts with the roots and the
directories that are visible below them, in which units are looked for. Take notices of which those
that tell of a creation come from watched directories. Then every watched directory is reached from
a root, through names that are visible or whose creation has been told. All directories of which
this has been told are watched, hidden or not. If no hidden one was among them, no watched directory
is below a hidden name. -/
theorem hidden_directory_watched_if_told {dirs : List Text} {notices : List Notice}
    (hstart : start t dirs {} = (w, none)) (hdelivered : Delivered counts w notices) :
    let after := w.takeAll counts notices
    let told := notices.filterMap Notice.created?
    (∀ l, l ∈ w.places ↔ ∃ dir ∈ dirs, ∃ r, t.directoryAt? dir = some r ∧
      (l = r ∨ ∃ names, (names, Entry.directory) ∈ t.visible r ∧ l = r ++ names)) ∧
    (∀ l ∈ after.places, ∃ r ∈ rootsIn t dirs, ∃ names, l = r ++ names ∧
      ∀ before c rest, names = before ++ c :: rest → FileTree.isHidden c = true →
        r ++ before ++ [c] ∈ told) ∧
    (∀ l ∈ told, l ∈ after.places) ∧
    ((∀ l c, l ++ [c] ∈ told → FileTree.isHidden c = false) → ∀ l ∈ after.places,
      ∃ r ∈ rootsIn t dirs, ∃ names, l = r ++ names ∧
        ∀ c ∈ names, FileTree.isHidden c = false) := by
  intro after told
  have hfirst : ∀ l, l ∈ w.places ↔ ∃ dir ∈ dirs, ∃ r, t.directoryAt? dir = some r ∧
      (l = r ∨ ∃ names, (names, Entry.directory) ∈ t.visible r ∧ l = r ++ names) := by
    intro l
    rw [mem_places_start hstart]
    simp [places, FileTree.mem_directoriesBelow]
  have hroots : ∀ l ∈ w.places, Reached (rootsIn t dirs) [] l := by
    intro l hl
    obtain ⟨dir, hdir, r, hr, hl⟩ := (hfirst l).mp hl
    have hroot : r ∈ rootsIn t dirs := List.mem_filterMap.mpr ⟨dir, hdir, hr⟩
    exact (Reached.root hroot).directoriesBelow dir (FileTree.mem_directoriesBelow.mpr hl)
  have hall : ∀ l ∈ after.places, Reached (rootsIn t dirs) told l :=
    reached_takeAll hroots hdelivered
  refine ⟨hfirst, fun l hl => (hall l hl).exists_names, fun l hl => ?_, fun hvisible l hl => ?_⟩
  · obtain ⟨n, hn, hcreated⟩ := List.mem_filterMap.mp hl
    exact (mem_places_takeAll notices).mpr (.inr ⟨n, hn, created_mem_found hcreated⟩)
  · exact Reached.nil_iff.mp ((hall l hl).of_visible hvisible)

/-- A directory with a hidden subdirectory and a visible one. -/
def projectTree : FileTree :=
  { entries :=
      [(["src"], .directory), (["src", ".git"], .directory), (["src", "lib"], .directory)] }

/-- What is watched of it. -/
def projectDirectories : List (Location × Text) := [(["src"], "src"), (["src", "lib"], "src/lib")]

/-- The watcher that has been started on it. -/
def projectWatcher : Watcher :=
  { watched := projectDirectories, log := [⟨.info, "watching src"⟩] }

/-- Where a hidden directory is created in the visible one. -/
def cachePlace : Location := ["src", "lib", ".cache"]

def cacheNotice : Notice :=
  .event (projectTree.put cachePlace .directory) "src/lib/.cache" [.create]

lemma start_projectTree : start projectTree ["src"] {} = (projectWatcher, none) := by
  have hdirs : projectTree.directoriesBelow "src" ["src"] = projectDirectories := by decide
  have hadd : addBelow {} projectTree "src" =
      .ok ((projectTree.directoriesBelow "src" ["src"]).foldl add {}) := rfl
  rw [hdirs] at hadd
  simp only [start, hadd]
  rfl

lemma created_cacheNotice : cacheNotice.created? = some cachePlace := rfl

lemma delivered_cacheNotice : Delivered isUnit projectWatcher [cacheNotice] := by
  refine ⟨fun l hl => ⟨["src", "lib"], by decide, ".cache", ?_⟩, trivial⟩
  exact (Option.some.inj hl).symm

theorem created_cache_watched :
    cacheNotice.created? = some cachePlace ∧
      (["src", ".git"] : Location) ∉ projectWatcher.places ∧
      cachePlace ∈ (projectWatcher.takeAll isUnit [cacheNotice]).places := by
  obtain ⟨-, -, htold, -⟩ :=
    hidden_directory_watched_if_told start_projectTree delivered_cacheNotice
  refine ⟨created_cacheNotice, by decide, htold cachePlace ?_⟩
  simp [created_cacheNotice]

/-- A hidden directory that is created below a root comes to be watched. -/
theorem hidden_directory_followed :
    start projectTree ["src"] {} = (projectWatcher, none) ∧
      Delivered isUnit projectWatcher [cacheNotice] ∧
      ∃ l ∈ (projectWatcher.takeAll isUnit [cacheNotice]).places,
        ¬ ∃ r ∈ rootsIn projectTree ["src"], ∃ names, l = r ++ names ∧
          ∀ c ∈ names, FileTree.isHidden c = false := by
  have hmem : cachePlace ∈ (projectWatcher.takeAll isUnit [cacheNotice]).places :=
    (mem_places_takeAll _).mpr
      (.inr ⟨_, List.mem_cons_self, created_mem_found created_cacheNotice⟩)
  refine ⟨start_projectTree, delivered_cacheNotice, cachePlace, hmem, ?_⟩
  rintro ⟨r, hr, names, heq, hnames⟩
  obtain rfl : r = ["src"] := List.mem_singleton.mp hr
  obtain rfl : names = ["lib", ".cache"] := (List.cons.inj heq).2.symm
  exact absurd (hnames ".cache" (by simp)) (by decide)

end Watcher

end SheetFormula
