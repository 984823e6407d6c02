import SheetFormula.Proofs.Growth
import SheetFormula.Store

/-!
# Where artifacts and manifests go

The files of a unit are in one directory: that of the unit, or one for all units. They are named for
the unit, with an ending for each kind of file, so files of different kinds are never the same. The
directories that are made for them are never in the place of such a file.
-/

namespace SheetFormula

open SheetFormula.Path

/-- An ending of file names: whatever stands before it, this is a name. -/
structure Path.Ending (s : Text) : Prop where
  noSlash : slash ∉ s
  long : 2 < s.length

lemma Path.Ending.proper {s : Text} (h : Ending s) (p : Text) : Proper (p ++ s) := by
  have hlong := h.long
  have hlength : 2 < (p ++ s).length := by
    rw [List.length_append]
    omega
  refine ⟨?_, ?_, ?_⟩ <;>
    · intro heq
      rw [heq] at hlength
      exact absurd hlength (by decide)

lemma OutputMode.ending (mode : OutputMode) : Ending mode.suffix := by
  cases mode <;> exact ⟨by decide, by decide⟩

/-- The ending of manifests. -/
def Format.suffix (format : Format) : Text := ".exports." ++ format.name

lemma Format.ending (format : Format) : Ending format.suffix := by
  cases format <;> exact ⟨by decide, by decide⟩

/-- No name is that of an artifact and of a manifest. -/
lemma append_suffix_ne (mode : OutputMode) (format : Format) (x y : Text) :
    x ++ mode.suffix ≠ y ++ format.suffix := by
  intro heq
  have hsuffix : mode.suffix <:+ format.suffix ∨ format.suffix <:+ mode.suffix :=
    List.suffix_or_suffix_of_suffix (List.suffix_append x _) (heq ▸ List.suffix_append y _)
  revert hsuffix
  cases mode <;> cases format <;> decide

/-! ### Directories and names -/

/-- The directory that the files of a unit go to. -/
def homeOf (outDir : Text) (here : Location) (unit : Text) : Location :=
  if outDir.isEmpty then resolve here (front unit) else resolve here outDir

section Artifact

variable {suffix : Text} (hsuffix : Ending suffix) (outDir : Text) (here : Location) (unit : Text)
include hsuffix

lemma artifactPath_of_ne_nil (hdir : outDir ≠ []) :
    artifactPath outDir unit suffix =
      clean (outDir ++ slash :: (lastPart (stem unit) ++ suffix)) := by
  have hne : suffix ≠ [] := (hsuffix.proper []).1
  rw [artifactPath, if_neg (by simpa using hdir), join, if_neg (by simpa using hdir),
    base_append hsuffix.noSlash hne]

lemma slash_not_mem_name : slash ∉ lastPart (stem unit) ++ suffix := by
  rw [List.mem_append, not_or]
  exact ⟨slash_not_mem_lastPart _, hsuffix.noSlash⟩

lemma resolve_dir_artifactPath :
    resolve here (dir (artifactPath outDir unit suffix)) = homeOf outDir here unit := by
  by_cases hdir : outDir = []
  · rw [homeOf, if_pos (by simpa using hdir), artifactPath, if_pos (by simpa using hdir),
      resolve_dir, front_append hsuffix.noSlash, front_stem]
  · rw [homeOf, if_neg (by simpa using hdir), artifactPath_of_ne_nil hsuffix outDir unit hdir]
    exact resolve_dir_clean hdir (hsuffix.proper _) (slash_not_mem_name hsuffix unit) here

/-- A file of a unit is in the directory of the unit's files. -/
lemma resolve_artifactPath :
    resolve here (artifactPath outDir unit suffix) =
      homeOf outDir here unit ++ [lastPart (stem unit) ++ suffix] := by
  by_cases hdir : outDir = []
  · rw [homeOf, if_pos (by simpa using hdir), artifactPath, if_pos (by simpa using hdir),
      resolve_eq_follow, front_append hsuffix.noSlash, front_stem,
      lastPart_append hsuffix.noSlash]
    exact follow_proper (hsuffix.proper _) _
  · rw [homeOf, if_neg (by simpa using hdir), artifactPath_of_ne_nil hsuffix outDir unit hdir,
      resolve_clean]
    exact resolve_append_proper hdir (hsuffix.proper _) (slash_not_mem_name hsuffix unit) here

end Artifact

/-- Making the directory of a unit's file changes nothing at a place where a file of a unit goes, if
paths start from a directory and units next to their files are in one. -/
lemma FileTree.get_reached_artifactPath {t : FileTree} {outDir suffix v : Text}
    (hsuffix : Ending suffix) (hhere : t.Rooted t.here)
    (hhome : outDir = [] → t.Rooted (homeOf outDir t.here v)) (u name : Text) :
    (reached (t.makeDirectory (dir (artifactPath outDir v suffix)))).get?
      (homeOf outDir t.here u ++ [name]) = t.get? (homeOf outDir t.here u ++ [name]) := by
  rcases t.get_reached (dir (artifactPath outDir v suffix)) (homeOf outDir t.here u ++ [name]) with
    hsame | ⟨hmem, hnone, -⟩
  · exact hsame
  · have hthere : t.get? (homeOf outDir t.here u ++ [name]) = some .directory := by
      rcases prefix_of_mem_chain hmem with habove | habove
      · rw [resolve_dir_artifactPath hsuffix] at habove
        by_cases hdir : outDir = []
        · exact hhome hdir _ habove
        · -- With one directory for all units, a file in it is not above it.
          have hlength := habove.length_le
          simp only [homeOf, List.isEmpty_iff, if_neg hdir, List.length_append, List.length_cons,
            List.length_nil] at hlength
          omega
      · exact hhere _ habove
    rw [hthere] at hnone
    cases hnone

namespace FileStore

def place (s : FileStore) (here : Location) (unit : Text) : Location := resolve here (s.path unit)

lemma place_eq (s : FileStore) (here : Location) (unit : Text) :
    s.place here unit =
      homeOf s.outDir here unit ++ [lastPart (stem unit) ++ s.format.suffix] :=
  resolve_artifactPath s.format.ending s.outDir here unit

/-- A save makes a directory and writes the manifest in its place. One that fails has made
directories at most. -/
lemma save_cases {s : FileStore} {t t' : FileTree} {unit : Text} {manifest : Entries}
    {failure : Option Failure} (h : s.save t unit manifest = (t', failure)) :
    failure ≠ none ∧ (t' = t ∨ FileTree.reached (t.makeDirectory (dir (s.path unit))) = t') ∨
      failure = none ∧ ∃ mid content, manifest.encode s.format = .ok content ∧
        t.makeDirectory (dir (s.path unit)) = .ok mid ∧
        mid.locate (s.path unit) = .ok (s.place t.here unit) ∧
        mid.get? (s.place t.here unit) ≠ some .directory ∧
        t' = mid.put (s.place t.here unit) (.file content) := by
  rw [save] at h
  split at h
  · cases h
    exact .inl ⟨by simp, .inl rfl⟩
  · rename_i content hencode
    split at h
    · rename_i e made hmake
      cases h
      exact .inl ⟨by simp, .inr (FileTree.reached_of_error hmake)⟩
    · rename_i mid hmake
      split at h
      · cases h
        exact .inl ⟨by simp, .inr (FileTree.reached_of_ok hmake)⟩
      · rename_i last hwrite
        cases h
        obtain ⟨l, hlocate, hget, rfl⟩ := FileTree.write_eq_ok.mp hwrite
        have hl : l = s.place t.here unit := by
          obtain ⟨-, -, rfl⟩ := FileTree.locate_eq_ok.mp hlocate
          rw [place, (FileTree.extends_makeDirectory hmake).here]
        subst hl
        exact .inr ⟨rfl, mid, content, hencode, hmake, hlocate, hget, rfl⟩

end FileStore

end SheetFormula
