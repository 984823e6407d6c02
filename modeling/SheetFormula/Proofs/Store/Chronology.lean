import SheetFormula.Proofs.Instant
import SheetFormula.Proofs.Store.Runs

/-!
# Units in the order of time

A store of tables records the text of the time of each save, and lists units by these texts. Since
texts are in the order of the times, the units are listed from the latest save to the earliest. The
saves are logged from outside, by the answers of the store.
-/

namespace SheetFormula

/-- The log of saves after a request: a save that has been answered without a failure is added. -/
def Request.logged (log : List (Text × Instant)) : Request → Answer → List (Text × Instant)
  | .save _ now unit _, .saved none => (unit, now) :: log
  | _, _ => log

/-- The log of saves after some requests, the latest first. -/
def Archive.saveLog : Archive → List (Text × Instant) → List Request → List (Text × Instant)
  | _, log, [] => log
  | a, log, r :: rest => saveLog (a.handle r).1 (r.logged log (a.handle r).2) rest

/-- The recorded times are those of the last logged saves. -/
def Saves.Dated (m : Saves) (log : List (Text × Instant)) : Prop :=
  ∀ unit, (m unit).map (·.compiledAt) = (log.lookup unit).map Instant.text

namespace Archive

variable {a : Archive} {m : Saves} {log : List (Text × Instant)}

/-- A request keeps the recorded times in step with the log. -/
lemma Keeps.dated (h : a.Keeps m) (hdated : m.Dated log) (r : Request) :
    (r.record m).Dated (r.logged log (a.handle r).2) := by
  cases r with
  | save canceled now unit manifest =>
    rcases h.save canceled now unit manifest with
      ⟨⟨rfl, hnodup⟩, b, hhandle, -⟩ | ⟨hbad, f, hhandle⟩
    · rw [hhandle, Request.record, if_pos hnodup, Request.logged]
      intro other
      by_cases hother : other = unit
      · subst hother
        simp
      · rw [Function.update_of_ne hother, List.lookup_cons, beq_false_of_ne hother]
        exact hdated other
    · rw [hhandle]
      cases canceled with
      | true => exact hdated
      | false =>
        rw [Request.record, if_neg fun hnodup => hbad ⟨rfl, hnodup⟩]
        exact hdated
  | load canceled unit => exact hdated
  | list canceled => exact hdated
  | reopen => exact hdated

lemma Keeps.dated_after (h : a.Keeps m) (hdated : m.Dated log) {history : List Request}
    (hlasting : a.settings.database = ":memory:" → Request.reopen ∉ history) :
    (history.foldl Request.record m).Dated (a.saveLog log history) := by
  induction history generalizing a m log with
  | nil => exact hdated
  | cons r rest ih =>
    obtain ⟨-, hnext, hrest⟩ := h.handle_cons hlasting
    exact ih hnext (h.dated hdated r) hrest

end Archive

/-- The units of a log of saves, each once: the latest come first, and of those saved at the same
time the one with the lesser name. -/
structure Chronological (log : List (Text × Instant)) (units : List Text) : Prop where
  distinct : units.Nodup
  complete : ∀ unit, unit ∈ units ↔ ∃ time, (unit, time) ∈ log
  latestFirst : units.Pairwise fun a b => ∀ x y, log.lookup a = some x → log.lookup b = some y →
    y.seconds < x.seconds ∨ x.seconds = y.seconds ∧ a < b

lemma mem_of_lookup_log {log : List (Text × Instant)} {unit : Text} {time : Instant}
    (h : log.lookup unit = some time) : (unit, time) ∈ log := by
  obtain ⟨before, after, rfl, -⟩ := List.lookup_eq_some_iff.mp h
  exact List.mem_append_right before List.mem_cons_self

/-- A log of saves determines the order of its units. -/
lemma Chronological.unique {log : List (Text × Instant)} {units units' : List Text}
    (h : Chronological log units) (h' : Chronological log units') : units = units' := by
  have hmem : ∀ unit, unit ∈ units ↔ unit ∈ units' := fun unit =>
    (h.complete unit).trans (h'.complete unit).symm
  have hsaved : ∀ unit ∈ units, ∃ time, log.lookup unit = some time := by
    intro unit hunit
    obtain ⟨time, htime⟩ := (h.complete unit).mp hunit
    exact Option.isSome_iff_exists.mp
      (List.lookup_isSome_iff.mpr ⟨_, htime, beq_self_eq_true unit⟩)
  have hperm : units.Perm units' := (List.perm_ext_iff_of_nodup h.distinct h'.distinct).mpr hmem
  refine hperm.eq_of_pairwise (fun a b ha hb hab hba => ?_) h.latestFirst h'.latestFirst
  obtain ⟨x, hx⟩ := hsaved a ha
  obtain ⟨y, hy⟩ := hsaved b ((hmem b).mpr hb)
  rcases hab x y hx hy with hlater | ⟨hsame, hname⟩ <;>
    rcases hba y x hy hx with hlater' | ⟨hsame', hname'⟩
  · omega
  · omega
  · omega
  · exact absurd hname' (List.lt_asymm hname)

lemma Saves.Listed.chronological {m : Saves} {units : List Text} (h : m.Listed units)
    {log : List (Text × Instant)} (hdated : m.Dated log)
    (hyears : ∀ save ∈ log, save.2.HasYear) : Chronological log units := by
  refine ⟨h.distinct, ?_, ?_⟩
  · intro unit
    rw [h.complete, ← Option.isSome_map, hdated, Option.isSome_map]
    constructor
    · intro hsome
      obtain ⟨time, htime⟩ := Option.isSome_iff_exists.mp hsome
      exact ⟨time, mem_of_lookup_log htime⟩
    · rintro ⟨time, hmem⟩
      exact List.lookup_isSome_iff.mpr ⟨_, hmem, beq_self_eq_true unit⟩
  · refine h.latestFirst.imp fun {a b} hab x y hx hy => ?_
    have hrecorded : ∀ {unit : Text} {time : Instant}, log.lookup unit = some time →
        ∃ s, m unit = some s ∧ s.compiledAt = time.text := by
      intro unit time htime
      have hmap := hdated unit
      rwa [htime, Option.map_some, Option.map_eq_some_iff] at hmap
    obtain ⟨s, hs, hxtext⟩ := hrecorded hx
    obtain ⟨s', hs', hytext⟩ := hrecorded hy
    have hxyear : x.HasYear := hyears (a, x) (mem_of_lookup_log hx)
    have hyyear : y.HasYear := hyears (b, y) (mem_of_lookup_log hy)
    rcases hab s s' hs hs' with hlater | ⟨hsame, hname⟩
    · rw [hxtext, hytext, Instant.text_lt_iff hyyear hxyear] at hlater
      exact .inl hlater
    · rw [hxtext, hytext] at hsame
      exact .inr ⟨Instant.seconds_eq hxyear hyyear hsame, hname⟩

/-- Recorded times sort as texts. For instants whose year has four digits, which are those from the
start of year 0 to the end of year 9999, the earlier one has the lesser text. So after any requests
to a store of tables on a new database, whose successful saves were at such times, the units that
have been saved are listed from the latest save to the earliest, and by name where the times are
equal. -/
theorem units_listed_chronologically :
    (∀ i : Instant, i.HasYear ↔ -62167219200 ≤ i.seconds ∧ i.seconds < 253402300800) ∧
    (∀ i j : Instant, i.HasYear → j.HasYear → (i.text < j.text ↔ i.seconds < j.seconds)) ∧
    ∀ (settings : ManifestSettings) (outDir : Text) (t : FileTree) (a : Archive)
      (history : List Request),
      settings.store = "sqlite" → Archive.openFor settings outDir t = .ok a →
      a.tables? = some {} → (settings.database = ":memory:" → Request.reopen ∉ history) →
      (∀ save ∈ a.saveLog [] history, save.2.HasYear) →
      ∃ units, ((a.after history).handle (.list false)).2 = .listed (.ok (some units)) ∧
        Chronological (a.saveLog [] history) units := by
  refine ⟨Instant.hasYear_iff, fun i j hi hj => Instant.text_lt_iff hi hj, ?_⟩
  intro settings outDir t a history hstore hopen hnew hlasting hyears
  obtain ⟨hstart, hsettings⟩ := Archive.keeps_openFor hstore hopen hnew
  have hlasting : a.settings.database = ":memory:" → Request.reopen ∉ history :=
    hsettings ▸ hlasting
  obtain ⟨units, hlist, hlisted⟩ := (hstart.after hlasting).list
  have hempty : Saves.Dated (fun _ => none) [] := fun unit => rfl
  have hdated := hstart.dated_after hempty hlasting
  exact ⟨units, hlist, hlisted.chronological hdated hyears⟩

/-- Saves around the end of a leap day, one of them of a unit that was first saved at the very start
of year 0, and one that its caller gives up. -/
def leapHistory : List Request :=
  [.save false ⟨-62167219200⟩ "b" [], .save false ⟨951868800⟩ "a" [⟨"X", "=1"⟩],
   .save false ⟨951868799⟩ "c" [], .list false, .save false ⟨951868800⟩ "b" [⟨"Y", "=2"⟩],
   .save true ⟨951868801⟩ "d" []]

/-- The saves of the example that succeed. -/
def leapLog : List (Text × Instant) :=
  [("b", ⟨951868800⟩), ("c", ⟨951868799⟩), ("a", ⟨951868800⟩), ("b", ⟨-62167219200⟩)]

theorem leap_day_listed_chronologically :
    ∃ a, Archive.openFor { store := "sqlite", database := ":memory:" } [] {} = .ok a ∧
      a.tables? = some {} ∧ a.saveLog [] leapHistory = leapLog ∧
      (∀ save ∈ leapLog, save.2.HasYear) ∧ Chronological leapLog ["a", "b", "c"] ∧
      ((a.after leapHistory).handle (.list false)).2 = .listed (.ok (some ["a", "b", "c"])) := by
  obtain ⟨a, hopen, hnew, hlog⟩ : ∃ a,
      Archive.openFor { store := "sqlite", database := ":memory:" } [] {} = .ok a ∧
        a.tables? = some {} ∧ a.saveLog [] leapHistory = leapLog := ⟨_, rfl, rfl, by decide⟩
  have hyears : ∀ save ∈ leapLog, save.2.HasYear := by decide
  have hleap : Chronological leapLog ["a", "b", "c"] := by
    refine ⟨by decide, fun unit => ?_, ?_⟩
    · simp only [leapLog, List.mem_cons, Prod.mk.injEq, List.not_mem_nil, or_false]
      grind
    · have hlater : (["a", "b", "c"] : List Text).Pairwise fun a b =>
          ∀ x ∈ leapLog.lookup a, ∀ y ∈ leapLog.lookup b,
            y.seconds < x.seconds ∨ x.seconds = y.seconds ∧ a < b := by decide
      exact hlater.imp fun hab x y hx hy => hab x hx y hy
  refine ⟨a, hopen, hnew, hlog, hyears, hleap, ?_⟩
  obtain ⟨units, hlist, hunits⟩ := units_listed_chronologically.2.2 _ _ _ a leapHistory rfl hopen
    hnew (fun _ => by decide) (hlog ▸ hyears)
  rw [hlog] at hunits
  rw [hlist, hunits.unique hleap]

end SheetFormula
