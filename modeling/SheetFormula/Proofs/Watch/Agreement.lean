import SheetFormula.Proofs.CommandLine.Finding
import SheetFormula.Proofs.Watch.Following

/-!
# What is found and what is watched

Two walks start at a directory: one lists units, the other collects directories to watch. Both go
through visible names only. So the units that are listed are those in watched directories, and a
directory is watched exactly if a unit in it would be listed.
-/

namespace SheetFormula

open SheetFormula.Path

namespace FileTree

variable {t : FileTree} {root p x c : Text} {dir d l names : Location} {e : Entry}

/-- A tree as a file system has it. -/
structure Regular (t : FileTree) : Prop where
  sound : t.Sound
  named : t.WellNamed
  distinct : (t.entries.map Prod.fst).Nodup

instance decidableRegular (t : FileTree) : Decidable t.Regular :=
  decidable_of_iff (t.Sound ∧ t.WellNamed ∧ (t.entries.map Prod.fst).Nodup)
    ⟨fun h => ⟨h.1, h.2.1, h.2.2⟩, fun h => ⟨h.sound, h.named, h.distinct⟩⟩

/-! ### Entries of a tree -/

lemma Regular.isName_of_get (h : t.Regular) (hl : t.get? l = some e) : ∀ c ∈ l, IsName c := by
  by_cases hne : l = []
  · simp [hne]
  · exact h.named _ (mem_of_get hne hl)

/-- A regular tree stays so when a file is put into one of its directories, under a name that no
directory has. -/
lemma Regular.put_file (h : t.Regular) (hd : t.get? d = some .directory) (hx : IsName x)
    (hfree : t.get? (d ++ [x]) ≠ some .directory) (content : Text) :
    (t.put (d ++ [x]) (.file content)).Regular where
  sound := by
    refine h.sound.put ?_ (by simp) (.inr hfree)
    rwa [List.dropLast_concat]
  named := by
    intro y hy c hc
    rcases List.mem_cons.mp hy with rfl | hy
    · rcases List.mem_append.mp hc with hc | hc
      · exact h.isName_of_get hd c hc
      · rwa [List.mem_singleton.mp hc]
    · exact h.named y (List.mem_filter.mp hy).1 c hc
  distinct := by
    have hnew : d ++ [x] ∉ (t.entries.filter (·.1 ≠ d ++ [x])).map Prod.fst := by
      intro hmem
      obtain ⟨y, hy, heq⟩ := List.mem_map.mp hmem
      exact of_decide_eq_true (List.mem_filter.mp hy).2 heq
    exact List.nodup_cons.mpr ⟨hnew, h.distinct.sublist (List.filter_sublist.map Prod.fst)⟩

/-! ### Units that are listed -/

/-- What is listed are the units below a directory, with visible names in between. -/
lemma mem_unitsBelow_iff (h : t.Regular) :
    p ∈ t.unitsBelow root dir ↔ ∃ names c e, t.get? (dir ++ names ++ [c]) = some e ∧
      e.isDirectory = false ∧ (∀ n ∈ names, isHidden n = false) ∧
      p = pathBelow root (names ++ [c]) ∧ isUnit p = true := by
  rw [unitsBelow_eq, List.mem_map]
  constructor
  · rintro ⟨⟨l, e⟩, hl, rfl⟩
    obtain ⟨hvisible, hfound⟩ := List.mem_filter.mp hl
    obtain ⟨hfile, hunit⟩ := isFound_iff.mp hfound
    obtain ⟨hne, hget, hshown⟩ := h.sound.sees_iff.mp (mem_visible.mp hvisible)
    obtain ⟨names, c, rfl⟩ : ∃ names c, l = names ++ [c] :=
      ⟨l.dropLast, l.getLast hne, (List.dropLast_concat_getLast hne).symm⟩
    rw [← List.append_assoc] at hget
    rw [hfile, if_neg (by simp), List.dropLast_concat] at hshown
    exact ⟨names, c, e, hget, hfile, hshown, rfl, hunit⟩
  · rintro ⟨names, c, e, hget, hfile, hshown, rfl, hunit⟩
    rw [List.append_assoc] at hget
    refine ⟨(names ++ [c], e), List.mem_filter.mpr ⟨?_, isFound_iff.mpr ⟨hfile, hunit⟩⟩, rfl⟩
    refine mem_visible.mpr (h.sound.sees_iff.mpr ⟨by simp, hget, ?_⟩)
    rwa [hfile, if_neg (by simp), List.dropLast_concat]

/-- Whether a path is that of a unit is up to its last name. -/
lemma isUnit_pathBelow (hroot : root ≠ []) (hc : IsName c) :
    isUnit (pathBelow root (names ++ [c])) = isUnit c := by
  have hbase : base c = c := base_append hc.noSlash hc.proper.1 []
  rw [isUnit_eq, isUnit_eq, base_pathBelow hroot hc.proper hc.noSlash, hbase]

/-- A location is at or below a directory, under visible names. -/
def VisibleBelow (dir l : Location) : Prop :=
  ∃ names, l = dir ++ names ∧ ∀ n ∈ names, isHidden n = false

/-- A file is listed if its name is that of a unit and its directory is visible. -/
lemma listed_iff (h : t.Regular) (hroot : t.locate root = .ok dir)
    (hget : t.get? (d ++ [c]) = some e) (hfile : e.isDirectory = false) :
    (∃ p ∈ t.unitsBelow root dir, t.locate p = .ok (d ++ [c])) ↔
      isUnit c = true ∧ VisibleBelow dir d := by
  have hne : root ≠ [] := (locate_eq_ok.mp hroot).1.2.1
  have hc : IsName c := h.isName_of_get hget c (by simp)
  have hplace : ∀ {names c e}, t.get? (dir ++ names ++ [c]) = some e →
      t.locate (pathBelow root (names ++ [c])) = .ok (dir ++ names ++ [c]) := by
    intro names c e hget
    rw [List.append_assoc] at hget ⊢
    exact locate_pathBelow h.sound h.named hroot (by simp) hget
  constructor
  · rintro ⟨p, hp, hl⟩
    obtain ⟨names, c', e', hget', -, hvisible, rfl, hunit⟩ := (mem_unitsBelow_iff h).mp hp
    rw [hplace hget'] at hl
    obtain ⟨rfl, rfl⟩ := List.append_singleton_inj.mp (Except.ok.inj hl)
    rw [isUnit_pathBelow hne hc] at hunit
    exact ⟨hunit, names, rfl, hvisible⟩
  · rintro ⟨hunit, names, rfl, hvisible⟩
    refine ⟨pathBelow root (names ++ [c]), ?_, hplace hget⟩
    rw [← isUnit_pathBelow hne hc] at hunit
    exact (mem_unitsBelow_iff h).mpr ⟨names, c, e, hget, hfile, hvisible, rfl, hunit⟩

/-! ### The order of a list -/

lemma components_pathBelow (hroot : root ≠ []) (hne : names ≠ []) (hnames : ∀ c ∈ names, IsName c) :
    components (pathBelow root names) = components root ++ names := by
  rw [pathBelow, Path.join, if_neg (by simpa using hroot), components_clean]
  exact components_append_names hroot hne (fun c hc => (hnames c hc).proper)
    fun c hc => (hnames c hc).noSlash

/-- Units are listed in the order of their components, so none is listed twice. -/
lemma pairwise_unitsBelow (h : t.Regular) (hroot : root ≠ []) (dir : Location) :
    (t.unitsBelow root dir).Pairwise fun p q => components p < components q := by
  rw [unitsBelow_eq, List.pairwise_map]
  have hnames : ∀ x ∈ t.visible dir, components (pathBelow root x.1) = components root ++ x.1 := by
    rintro ⟨l, e⟩ hx
    have hsees := mem_visible.mp hx
    refine components_pathBelow hroot hsees.ne_nil fun c hc => ?_
    exact h.isName_of_get hsees.get c (List.mem_append_right _ hc)
  refine ((t.pairwise_visible dir).filter _).imp_of_mem fun {x y} hx hy hlt => ?_
  rw [hnames x (List.mem_filter.mp hx).1, hnames y (List.mem_filter.mp hy).1]
  exact List.append_left_lt hlt

end FileTree

/-! ### Directories that are watched -/

lemma FileTree.directory_mem_visible {t : FileTree} (h : t.Regular) {dir names : Location} :
    (names, Entry.directory) ∈ t.visible dir ↔ names ≠ [] ∧
      t.get? (dir ++ names) = some .directory ∧ ∀ n ∈ names, isHidden n = false := by
  rw [mem_visible, h.sound.sees_iff]
  rfl

namespace Watcher

variable {t : FileTree} {w : Watcher} {root : Text} {dir d : Location}

/-- Right after its start a watcher has the directories that are visible below the root. -/
lemma mem_places_start_iff (h : t.Regular) (hroot : t.directoryAt? root = some dir)
    (hw : start t [root] {} = (w, none)) :
    d ∈ w.places ↔ t.get? d = some .directory ∧ FileTree.VisibleBelow dir d := by
  have hplaces : d ∈ w.places ↔ d ∈ (t.directoriesBelow root dir).map Prod.fst := by
    rw [mem_places_start hw]
    simp [places, hroot]
  rw [hplaces, FileTree.mem_directoriesBelow]
  constructor
  · rintro (rfl | ⟨names, hmem, rfl⟩)
    · exact ⟨(FileTree.directoryAt_eq_some.mp hroot).2, [], by simp, by simp⟩
    · obtain ⟨-, hget, hnames⟩ := (FileTree.directory_mem_visible h).mp hmem
      exact ⟨hget, names, rfl, hnames⟩
  · rintro ⟨hget, names, rfl, hnames⟩
    by_cases hne : names = []
    · exact .inl (by simp [hne])
    · exact .inr ⟨names, (FileTree.directory_mem_visible h).mpr ⟨hne, hget, hnames⟩, rfl⟩

/-- A watcher starts on every directory. -/
lemma exists_start (hroot : t.directoryAt? root = some dir) :
    ∃ w, start t [root] {} = (w, none) := by
  obtain ⟨hlocate, hget⟩ := FileTree.directoryAt_eq_some.mp hroot
  simp [start, addBelow, hlocate, hget]

end Watcher

open FileTree in
/-- Looking for units and watching agree on what counts. The list of units below a directory has
exactly the files with names of units that are below visible directories, each once and in the order
of the components of their paths. The directories that a watcher starts with are those in which a
file with the name of a unit would be listed. So a file is listed if it has such a name and its
directory is watched. -/
theorem units_listed_where_watched {t : FileTree} {root : Text} {dir : Location} (h : t.Regular)
    (hroot : t.directoryAt? root = some dir) :
    (∀ p, p ∈ t.unitsBelow root dir ↔ ∃ names c e, t.get? (dir ++ names ++ [c]) = some e ∧
      e.isDirectory = false ∧ (∀ n ∈ names, isHidden n = false) ∧
      p = pathBelow root (names ++ [c]) ∧ isUnit p = true) ∧
    (t.unitsBelow root dir).Pairwise (fun p q => Path.components p < Path.components q) ∧
    ∃ w, Watcher.start t [root] {} = (w, none) ∧
      (∀ d ∈ w.places, t.get? d = some .directory) ∧
      (∀ d x content, t.get? d = some .directory → IsName x → isUnit x = true →
        t.get? (d ++ [x]) ≠ some .directory →
        (d ∈ w.places ↔ ∃ p ∈ (t.put (d ++ [x]) (.file content)).unitsBelow root dir,
          (t.put (d ++ [x]) (.file content)).locate p = .ok (d ++ [x]))) ∧
      ∀ d c e, t.get? (d ++ [c]) = some e → e.isDirectory = false →
        ((∃ p ∈ t.unitsBelow root dir, t.locate p = .ok (d ++ [c])) ↔
          isUnit c = true ∧ d ∈ w.places) := by
  obtain ⟨hlocate, hget⟩ := directoryAt_eq_some.mp hroot
  have hne : root ≠ [] := (locate_eq_ok.mp hlocate).1.2.1
  obtain ⟨w, hw⟩ := Watcher.exists_start hroot
  have hwatched : ∀ d, d ∈ w.places ↔ t.get? d = some .directory ∧ VisibleBelow dir d :=
    fun d => Watcher.mem_places_start_iff h hroot hw
  refine ⟨fun p => mem_unitsBelow_iff h, pairwise_unitsBelow h hne dir, w, hw, ?_, ?_, ?_⟩
  · exact fun d hd => ((hwatched d).mp hd).1
  · intro d x content hd hx hunit hfree
    have hmore : t.Extends (t.put (d ++ [x]) (.file content)) := extends_put (by simp) (.inr hfree)
    have hthere : (t.put (d ++ [x]) (.file content)).get? (d ++ [x]) = some (.file content) := by
      rw [get_put (by simp), if_pos rfl]
    rw [listed_iff (h.put_file hd hx hfree content) (hmore.locate hlocate) hthere rfl, hwatched]
    exact ⟨fun hplace => ⟨hunit, hplace.2⟩, fun hplace => ⟨hd, hplace.2⟩⟩
  · intro d c e hfile hentry
    have hd : t.get? d = some .directory := h.sound.parent hfile
    rw [listed_iff h hlocate hfile hentry, hwatched]
    exact ⟨fun hplace => ⟨hplace.1, hd, hplace.2⟩, fun hplace => ⟨hplace.1, hplace.2.2⟩⟩

/-- Units in a directory, in a visible directory below it and in a hidden one. -/
def libraryEntries : List (Location × Entry) :=
  [([".git"], .directory), ([".git", "x.json"], .file []), (["a.json"], .file []),
   (["lib"], .directory), (["lib", "b.JSON"], .file []), (["lib", "b.exports.json"], .file [])]

def libraryTree : FileTree :=
  { entries := (["src"], .directory) :: libraryEntries.map fun x => ("src" :: x.1, x.2) }

lemma unitsBelow_libraryTree :
    libraryTree.unitsBelow "src" ["src"] = ["src/a.json", "src/lib/b.JSON"] := by
  decide

/-- A unit in a visible directory is listed and watched, one in a hidden directory is neither. -/
theorem library_unit_listed_and_watched :
    libraryTree.Regular ∧ libraryTree.directoryAt? "src" = some (["src"] : Location) ∧
    (∃ p ∈ libraryTree.unitsBelow "src" ["src"],
      libraryTree.locate p = .ok ["src", "lib", "b.JSON"]) ∧
    ∃ w, Watcher.start libraryTree ["src"] {} = (w, none) ∧
      (["src", "lib"] : Location) ∈ w.places ∧ (["src", ".git"] : Location) ∉ w.places := by
  have hregular : libraryTree.Regular := by decide
  have hroot : libraryTree.directoryAt? "src" = some (["src"] : Location) := by decide
  have hlisted : ∃ p ∈ libraryTree.unitsBelow "src" ["src"],
      libraryTree.locate p = .ok ["src", "lib", "b.JSON"] :=
    ⟨"src/lib/b.JSON", by rw [unitsBelow_libraryTree]; decide, by decide⟩
  obtain ⟨-, -, w, hw, -, -, hfiles⟩ := units_listed_where_watched hregular hroot
  refine ⟨hregular, hroot, hlisted, w, hw, ?_, ?_⟩
  · exact ((hfiles ["src", "lib"] "b.JSON" _ rfl rfl).mp hlisted).2
  · intro hhidden
    obtain ⟨p, hp, hplace⟩ :=
      (hfiles ["src", ".git"] "x.json" _ rfl rfl).mpr ⟨by decide, hhidden⟩
    rw [unitsBelow_libraryTree] at hp
    revert p
    decide

end SheetFormula
