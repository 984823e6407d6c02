import Mathlib.Data.List.Basic
import Mathlib.Data.List.TakeWhile
import SheetFormula.Discovery
import SheetFormula.Proofs.Artifact
import SheetFormula.Proofs.Walk

/-!
# What is found as a unit

Whether a path is that of a unit depends on the last name in it only. The names of artifacts and
manifests are never those of units, whatever the names of their units are, so a tree that grows by
output has the same units in every directory.
-/

namespace SheetFormula

open SheetFormula.Path

/-! ### Letter case and ASCII endings -/

namespace Text

variable {s : Text}

lemma isTail_of_lt {b : UInt8} (h : b < 0x80) : Symbol.isTail b = false := by
  have hle : ¬ 0x80 ≤ b := UInt8.not_le.mpr h
  simp [Symbol.isTail, hle]

lemma firstChar_append (hs : s.head?.all (· < 0x80) = true) (a : UInt8) (rest : Text) :
    firstChar? (a :: (rest ++ s)) = firstChar? (a :: rest) := by
  cases s with
  | nil => rw [List.append_nil]
  | cons d s =>
    have hd := isTail_of_lt (b := d) (by simpa using hs)
    by_cases ha : a < 0x80
    · simp only [firstChar?, if_pos ha]
    · rcases rest with _ | ⟨b, _ | ⟨c, _ | ⟨e, rest⟩⟩⟩
      · rcases s with _ | ⟨x, _ | ⟨y, s⟩⟩ <;>
          simp [firstChar?, ha, Symbol.two?, Symbol.three?, Symbol.four?, hd]
      · rcases s with _ | ⟨x, s⟩ <;>
          simp [firstChar?, ha, Symbol.three?, Symbol.four?, hd]
      · simp [firstChar?, ha, Symbol.four?, hd]
      · rfl

lemma length_of_firstChar {a : UInt8} {rest : Text} {c : Char} {more : Nat}
    (h : firstChar? (a :: rest) = some (c, more)) : more ≤ rest.length := by
  by_cases ha : a < 0x80
  · simp only [firstChar?, if_pos ha, Option.some.injEq, Prod.mk.injEq] at h
    omega
  · rcases rest with _ | ⟨b, _ | ⟨d, _ | ⟨e, rest⟩⟩⟩ <;>
      simp only [firstChar?, if_neg ha, Option.orElse_eq_orElse, Option.orElse_eq_or,
        Option.or_eq_some_iff, Option.map_eq_some_iff, Prod.mk.injEq, reduceCtorEq] at h <;>
      simp only [List.length_cons] <;> grind

/-- What an ASCII byte follows is read as if it were alone. -/
lemma symbolsFrom_append (hs : s.head?.all (· < 0x80) = true) {skip : Nat} {x : Text}
    (hskip : skip ≤ x.length) :
    symbolsFrom skip (x ++ s) = symbolsFrom skip x ++ symbols s := by
  induction x generalizing skip with
  | nil =>
    obtain rfl : skip = 0 := Nat.le_zero.mp hskip
    rfl
  | cons a rest ih =>
    rw [List.length_cons] at hskip
    cases skip with
    | succ skip => exact ih (by omega)
    | zero =>
      rw [List.cons_append, symbolsFrom, symbolsFrom, firstChar_append hs]
      split
      · rename_i c more hfirst
        rw [ih (length_of_firstChar hfirst), List.cons_append]
      · rw [ih (Nat.zero_le _), List.cons_append]

lemma lower_append (hs : s.head?.all (· < 0x80) = true) (x : Text) :
    lower (x ++ s) = lower x ++ lower s := by
  rw [lower, symbols, symbolsFrom_append hs (Nat.zero_le _), List.map_append, ofSymbols,
    List.flatMap_append]
  rfl

end Text

/-! ### Names of units -/

namespace Path

/-- The last point of a name starts its extension. -/
lemma extension_append {tail : Text} (hdot : Char.toUInt8 '.' ∉ tail) (hslash : slash ∉ tail)
    (x : Text) : extension (x ++ ("." ++ tail)) = "." ++ tail := by
  have hslash' : slash ∉ ("." : Text) ++ tail := by
    rw [List.mem_append, not_or]
    exact ⟨by decide, hslash⟩
  have htail : ((lastPart x ++ ("." ++ tail)).reverse.takeWhile fun b : UInt8 => b != '.').reverse =
      tail := by
    have hpoint : ("." : Text) = [Char.toUInt8 '.'] := rfl
    rw [← List.append_assoc, takeWhile_reverse_append hdot, hpoint]
    simp
  have hlength : ¬ tail.length = (lastPart x ++ ("." ++ tail)).length := by
    have hone : ("." : Text).length = 1 := rfl
    rw [List.length_append, List.length_append]
    omega
  rw [extension, lastPart_append hslash']
  simp only [htail, if_neg hlength]
  rfl

lemma base_of_lastPart {p : Text} (h : lastPart p ≠ []) : base p = lastPart p := by
  have hfront : lastPart (front p) = [] := by
    have hwhole := lastPart_append (slash_not_mem_lastPart p) (front p)
    rw [front_append_lastPart] at hwhole
    exact List.self_eq_append_left.mp hwhole
  have hbase := base_append (slash_not_mem_lastPart p) h (front p)
  rwa [front_append_lastPart, hfront, List.nil_append] at hbase

lemma resolve_trailing_slashes {q : Text} (hq : q ≠ []) (n : Nat) (here : Location) :
    resolve here (q ++ List.replicate n slash) = resolve here q := by
  induction n with
  | zero => rw [List.replicate_zero, List.append_nil]
  | succ n ih =>
    rw [List.replicate_succ', ← List.append_assoc,
      resolve_trailing_slash (List.append_ne_nil_of_left_ne_nil hq _), ih]

end Path

def isUnitName (name : Text) : Bool :=
  !FileTree.isHidden name.lower && extension name.lower == ".json"
    && !Text.endsWith ".exports.json" name.lower && !Text.endsWith ".formulas.json" name.lower

lemma isUnit_eq (p : Text) : isUnit p = isUnitName (base p) := rfl

lemma proper_of_isUnitName {name : Text} (h : isUnitName name = true) : Proper name := by
  refine ⟨?_, ?_, ?_⟩ <;>
    · rintro rfl
      exact absurd h (by decide)

/-- A name with an ASCII ending of its own kind is not that of a unit. -/
lemma isUnitName_append {s : Text} (hplain : s.head?.all (· < 0x80) = true) (hlower : s.lower = s)
    (h : (∀ y, extension (y ++ s) ≠ ".json") ∨ Text.endsWith ".exports.json" s = true ∨
      Text.endsWith ".formulas.json" s = true) (x : Text) : isUnitName (x ++ s) = false := by
  have hends : ∀ part : Text, Text.endsWith part s = true →
      Text.endsWith part (x.lower ++ s) = true := by
    intro part hpart
    rw [Text.endsWith, List.isSuffixOf_iff_suffix] at hpart ⊢
    exact hpart.trans (List.suffix_append _ _)
  rw [isUnitName, Text.lower_append hplain, hlower]
  rcases h with h | h | h
  · simp [h x.lower]
  · simp [hends _ h]
  · simp [hends _ h]

lemma OutputMode.isUnitName_append_suffix (mode : OutputMode) (x : Text) :
    isUnitName (x ++ mode.suffix) = false := by
  cases mode with
  | packed =>
    refine isUnitName_append (by decide) (by decide) (.inl fun y => ?_) x
    have hsuffix : OutputMode.packed.suffix = "." ++ ("formula" : Text) := rfl
    rw [hsuffix, extension_append (by decide) (by decide)]
    decide
  | unpacked => exact isUnitName_append (by decide) (by decide) (.inr (.inr (by decide))) x

lemma Format.isUnitName_append_suffix (format : Format) (x : Text) :
    isUnitName (x ++ format.suffix) = false := by
  cases format with
  | json => exact isUnitName_append (by decide) (by decide) (.inr (.inl (by decide))) x
  | yaml =>
    refine isUnitName_append (by decide) (by decide) (.inl fun y => ?_) x
    have hsuffix : Format.yaml.suffix = ".exports" ++ ("." ++ ("yaml" : Text)) := rfl
    rw [hsuffix, ← List.append_assoc, extension_append (by decide) (by decide)]
    decide

/-- A path is followed by slashes at most behind its last name. -/
lemma exists_trailing_slashes (p : Text) :
    ∃ n, p = (p.reverse.dropWhile (· == slash)).reverse ++ List.replicate n slash := by
  refine ⟨(p.reverse.takeWhile (· == slash)).length, ?_⟩
  have hall : p.reverse.takeWhile (· == slash) =
      List.replicate (p.reverse.takeWhile (· == slash)).length slash := by
    refine List.eq_replicate_iff.mpr ⟨rfl, fun b hb => ?_⟩
    simpa using List.mem_takeWhile_imp hb
  rw [← List.reverse_replicate, ← hall, ← List.reverse_append, List.takeWhile_append_dropWhile,
    List.reverse_reverse]

/-- The path of a unit leads to an entry with the name of the unit. -/
lemma exists_resolve_of_isUnit {p : Text} (h : isUnit p = true) (here : Location) :
    ∃ parents, resolve here p = parents ++ [base p] := by
  have hproper := proper_of_isUnitName (isUnit_eq p ▸ h)
  obtain ⟨n, hp⟩ := exists_trailing_slashes p
  generalize hq : (p.reverse.dropWhile (· == slash)).reverse = q at hp
  by_cases hempty : q = []
  · -- Such a path is empty or of slashes only.
    have hbase : base p = "." ∨ base p = [slash] := by
      rw [base, hq, hempty]
      split_ifs
      · exact .inl rfl
      · exact .inr rfl
    rw [isUnit_eq] at h
    rcases hbase with hbase | hbase <;> rw [hbase] at h <;> exact absurd h (by decide)
  · have hbase : base p = lastPart q := by
      have hp' : ¬ p.isEmpty = true := by simp [hp, hempty]
      have hq' : ¬ q.isEmpty = true := by simpa using hempty
      rw [base, if_neg hp', hq]
      exact if_neg hq'
    refine ⟨resolve here (front q), ?_⟩
    have hresolve : resolve here p = resolve here q := by
      rw [hp]
      exact resolve_trailing_slashes hempty n here
    rw [hresolve, resolve_eq_follow, ← hbase]
    exact follow_proper hproper _

/-- The path of an entry below a path ends with the name of the entry. -/
lemma base_pathBelow {root name : Text} (hroot : root ≠ []) (hname : Proper name)
    (hslash : slash ∉ name) (parents : Location) :
    base (FileTree.pathBelow root (parents ++ [name])) = name := by
  obtain ⟨q, hq, hpath⟩ : ∃ q, q ≠ [] ∧
      FileTree.pathBelow root (parents ++ [name]) = clean (q ++ slash :: name) := by
    by_cases hparents : parents = []
    · refine ⟨root, hroot, ?_⟩
      rw [FileTree.pathBelow, Path.join, if_neg (by simpa using hroot), hparents]
      simp [Text.join]
    · refine ⟨root ++ slash :: Text.join [slash] parents, by simp, ?_⟩
      rw [FileTree.pathBelow, Path.join, if_neg (by simpa using hroot), Text.join_concat hparents]
      simp
  have hlast := lastPart_clean hq hname hslash
  have hbase : base (clean (q ++ slash :: name)) = lastPart (clean (q ++ slash :: name)) := by
    apply base_of_lastPart
    rw [hlast]
    exact hname.1
  rw [hpath, hbase, hlast]

/-! ### The units in a directory -/

namespace FileTree

variable {made written : List Location} {t t' : FileTree} {root : Text} {dir l : Location}
  {e : Entry}

/-- Whether what is visible in a directory is found as a unit. -/
def isFound (root : Text) (x : Location × Entry) : Bool :=
  !x.2.isDirectory && isUnit (pathBelow root x.1)

lemma isFound_iff :
    isFound root (l, e) = true ↔ e.isDirectory = false ∧ isUnit (pathBelow root l) = true := by
  rw [isFound, Bool.and_eq_true, Bool.not_eq_true']

lemma unitsBelow_eq (t : FileTree) (root : Text) (dir : Location) :
    t.unitsBelow root dir =
      ((t.visible dir).filter (isFound root)).map fun x => pathBelow root x.1 := by
  rw [unitsBelow, ← List.filterMap_eq_map, List.filterMap_filter]
  refine List.filterMap_congr fun x _ => ?_
  by_cases hfound : isFound root x = true
  · rw [if_pos hfound]
    exact if_pos hfound
  · rw [if_neg hfound]
    exact if_neg hfound

/-- A place that no unit can be in: the last name on the way is not that of a unit. -/
def NoUnit (l : Location) : Prop :=
  ∃ parents name, l = parents ++ [name] ∧ isUnitName name = false ∧ Proper name ∧ slash ∉ name

/-- What is in such a place is not found as a unit. -/
lemma NoUnit.isFound_eq_false (h : NoUnit (dir ++ l)) (hl : l ≠ []) (hroot : root ≠ [])
    (e : Entry) : isFound root (l, e) = false := by
  obtain ⟨parents, name, hplace, hname, hproper, hslash⟩ := h
  obtain ⟨before, last, rfl⟩ : ∃ before last, l = before ++ [last] :=
    ⟨l.dropLast, l.getLast hl, (List.dropLast_concat_getLast hl).symm⟩
  rw [← List.append_assoc] at hplace
  obtain ⟨-, rfl⟩ := List.append_singleton_inj.mp hplace
  have hunit : isUnit (pathBelow root (before ++ [last])) = false := by
    rw [isUnit_eq, base_pathBelow hroot hproper hslash, hname]
  rw [isFound, hunit, Bool.and_false]

/-- A sound tree that grows by files in such places has the same units. -/
lemma Grows.unitsBelow (h : t.Grows made written t') (hsound : t.Sound)
    (hwritten : ∀ l ∈ written, NoUnit l) (hroot : root ≠ []) (dir : Location) :
    t'.unitsBelow root dir = t.unitsBelow root dir := by
  rw [unitsBelow_eq, unitsBelow_eq]
  refine congrArg (List.map _) (filter_visible_congr fun l e hfound => ?_)
  have hfile : e ≠ .directory := by
    rintro rfl
    cases hfound
  have hfree : l ≠ [] → dir ++ l ∉ written := by
    intro hl hmem
    rw [(hwritten _ hmem).isFound_eq_false hl hroot] at hfound
    cases hfound
  constructor
  · intro hsees
    -- The directories on the way may have been made, but not before what is in them.
    refine hsound.sees_iff.mpr ⟨hsees.ne_nil, ?_, hsees.shown⟩
    rcases h.changedOnly (dir ++ l) with hsame | ⟨-, -, hmade⟩ | ⟨hmem, -⟩
    · rw [← hsame]
      exact hsees.get
    · exact absurd (Option.some.inj (hsees.get.symm.trans hmade)) hfile
    · exact absurd hmem (hfree hsees.ne_nil)
  · intro hsees
    refine hsees.of_extends h.toExtends ?_
    rcases h.changedOnly (dir ++ l) with hsame | ⟨-, hnone, -⟩ | ⟨hmem, -⟩
    · exact hsame
    · rw [hsees.get] at hnone
      cases hnone
    · exact absurd hmem (hfree hsees.ne_nil)

end FileTree

/-- A path of a unit does not lead to such a place. -/
lemma not_noUnit_resolve {p : Text} (h : isUnit p = true) (here : Location) :
    ¬ FileTree.NoUnit (resolve here p) := by
  rintro ⟨parents, name, hl, hname, -, -⟩
  obtain ⟨parents', hresolve⟩ := exists_resolve_of_isUnit h here
  rw [hresolve] at hl
  obtain ⟨-, rfl⟩ := List.append_singleton_inj.mp hl
  rw [isUnit_eq, hname] at h
  cases h

end SheetFormula
