import Mathlib.Data.List.Basic
import Mathlib.Data.List.Induction
import Mathlib.Data.List.Nodup
import Mathlib.Tactic.Lemma
import SheetFormula.Watch

/-!
# Changes that are delivered once

A watcher is told of events, of timers that have run out, and that all timers are stopped. A path
waits as long as the latest notice about its timer is an event that starts it, and it is delivered
when its timer runs out while it waits. So a burst of events makes one delivery.
-/

namespace SheetFormula.Watcher

/-- What a watcher is told. An event comes with the files as they are when it is handled. -/
inductive Notice where
  | event (tree : FileTree) (path : Text) (changes : List Change)
  | expiry (path : Text)
  | stop

namespace Notice

variable (counts : Text → Bool) (p : Text)

/-- Whether a notice starts the timer of a path: the path counts and is written or created, and it
is not created as a directory. -/
def starts : Notice → Bool
  | event tree path changes =>
    path = p && counts p && (changes.contains .write || changes.contains .create)
      && !(changes.contains .create && tree.find p = .ok .directory)
  | expiry _ | stop => false

/-- Whether a notice ends the timer of a path. -/
def ends : Notice → Bool
  | event .. => false
  | expiry path => path = p
  | stop => true

/-- The path whose timer a notice says has run out. -/
def expired? : Notice → Option Text
  | expiry path => some path
  | event .. | stop => none

end Notice

def take (counts : Text → Bool) (w : Watcher) : Notice → Watcher
  | .event tree path changes => w.handle tree counts path changes
  | .expiry path => w.expire path
  | .stop => w.stop

def takeAll (counts : Text → Bool) (w : Watcher) (notices : List Notice) : Watcher :=
  notices.foldl (take counts) w

/-- Whether a path waits after some notices: of those that start or end its timer, the latest one
starts it. -/
def waits (counts : Text → Bool) (notices : List Notice) (p : Text) : Bool :=
  (notices.filter fun n => n.starts counts p || n.ends p).getLast?.any (·.starts counts p)

/-- The path that is delivered by the notice at an index: that of a timer which has run out, if the
path was waiting. -/
def delivery? (counts : Text → Bool) (notices : List Notice) (i : Nat) : Option Text :=
  (notices[i]?.bind Notice.expired?).filter (waits counts (notices.take i))

def deliveries (counts : Text → Bool) (notices : List Notice) : List Text :=
  (List.range notices.length).filterMap (delivery? counts notices)

variable {counts : Text → Bool} {w : Watcher} {p : Text}

/-! ### What one notice does -/

lemma timers_addBelow {w' : Watcher} {t : FileTree} {root : Text}
    (h : w.addBelow t root = .ok w') : w'.pending = w.pending ∧ w'.queue = w.queue := by
  have hadd : ∀ (dirs : List (Location × Text)) (w : Watcher),
      (dirs.foldl add w).pending = w.pending ∧ (dirs.foldl add w).queue = w.queue := by
    intro dirs
    induction dirs with
    | nil => exact fun w => ⟨rfl, rfl⟩
    | cons dir rest ih =>
      intro w
      obtain ⟨hpending, hqueue⟩ := ih (w.add dir)
      rw [List.foldl_cons, hpending, hqueue, add]
      split <;> exact ⟨rfl, rfl⟩
  rw [addBelow] at h
  split at h
  · cases h
  · split at h
    · cases h
    · cases h
      exact hadd _ w
    · cases h
      exact ⟨rfl, rfl⟩

lemma mem_schedule {q : Text} : p ∈ (w.schedule q).pending ↔ p = q ∨ p ∈ w.pending := by
  rw [schedule]
  split
  · rename_i hmem
    constructor
    · exact Or.inr
    · rintro (rfl | hp)
      · exact List.contains_iff_mem.mp hmem
      · exact hp
  · simp [or_comm]

lemma finds_directory (tree : FileTree) (path : Text) :
    (tree.find path).toOption.any Entry.isDirectory =
      decide (tree.find path = .ok .directory) := by
  rcases tree.find path with fault | e
  · simp [Except.toOption]
  · cases e <;> simp [Except.toOption, Entry.isDirectory]

/-- An event starts the timer of its path, or leaves all timers; it delivers nothing. -/
lemma handle_cases (w : Watcher) (counts : Text → Bool) (tree : FileTree) (path : Text)
    (changes : List Change) :
    (Notice.event tree path changes).starts counts path = true ∧
        w.handle tree counts path changes = w.schedule path ∨
      (Notice.event tree path changes).starts counts path = false ∧
        (w.handle tree counts path changes).pending = w.pending ∧
        (w.handle tree counts path changes).queue = w.queue := by
  rw [handle, finds_directory]
  by_cases hchange : (changes.contains .create || changes.contains .write) = true
  · rw [hchange, if_neg (by simp)]
    by_cases hmade : (changes.contains .create && decide (tree.find path = .ok .directory)) = true
    · refine .inr ⟨by rw [Notice.starts, hmade]; simp, ?_⟩
      rw [if_pos hmade]
      cases hadd : w.addBelow tree path with
      | ok w' => exact timers_addBelow hadd
      | error e => exact ⟨rfl, rfl⟩
    · rw [if_neg hmade]
      by_cases hcounts : counts path = true
      · refine .inl ⟨?_, if_pos hcounts⟩
        rw [Bool.or_comm] at hchange
        simp only [Notice.starts, hcounts, hchange, Bool.eq_false_iff.mpr hmade]
        rfl
      · rw [if_neg hcounts]
        exact .inr ⟨by simp [Notice.starts, hcounts], rfl, rfl⟩
  · rw [if_pos (by simpa using hchange)]
    rw [Bool.or_comm] at hchange
    exact .inr ⟨by rw [Notice.starts, Bool.eq_false_iff.mpr hchange]; simp, rfl, rfl⟩

lemma starts_event_iff {tree : FileTree} {path : Text} {changes : List Change} :
    (Notice.event tree path changes).starts counts p = true ↔
      p = path ∧ (Notice.event tree path changes).starts counts path = true := by
  by_cases hp : path = p
  · simp [hp]
  · simp [Notice.starts, hp, Ne.symm hp]

/-- A notice makes a path wait, or lets it wait unless it ends the timer. -/
lemma mem_pending_take (n : Notice) :
    p ∈ (w.take counts n).pending ↔
      n.starts counts p = true ∨ p ∈ w.pending ∧ n.ends p = false := by
  cases n with
  | event tree path changes =>
    rw [starts_event_iff]
    rcases handle_cases w counts tree path changes with
      ⟨hstarts, hhandle⟩ | ⟨hstarts, hpending, -⟩
    · rw [take, hhandle, mem_schedule]
      simp [hstarts, Notice.ends]
    · rw [take, hpending]
      simp [hstarts, Notice.ends]
  | expiry path =>
    rw [take, expire]
    split
    · by_cases hp : path = p
      · simp [Notice.starts, Notice.ends, hp]
      · simp [Notice.starts, Notice.ends, hp, Ne.symm hp]
    · rename_i hnot
      have hother : p ∈ w.pending → path ≠ p := by
        rintro hp rfl
        exact hnot (List.contains_iff_mem.mpr hp)
      simpa [Notice.starts, Notice.ends] using hother
  | stop => simp [take, stop, Notice.starts, Notice.ends]

lemma nodup_pending_take (h : w.pending.Nodup) (n : Notice) :
    (w.take counts n).pending.Nodup := by
  cases n with
  | event tree path changes =>
    rcases handle_cases w counts tree path changes with ⟨-, hhandle⟩ | ⟨-, hpending, -⟩
    · rw [take, hhandle, schedule]
      split
      · exact h
      · rename_i hnot
        have hnew : path ∉ w.pending := by simpa using hnot
        exact List.nodup_append.mpr ⟨h, List.nodup_singleton path, by grind⟩
    · rw [take, hpending]
      exact h
  | expiry path =>
    rw [take, expire]
    split
    · exact h.filter _
    · exact h
  | stop => exact List.nodup_nil

/-- Only a timer that runs out while it is running delivers its path. -/
lemma queue_take (n : Notice) :
    (w.take counts n).queue = w.queue ++ (n.expired?.filter (· ∈ w.pending)).toList := by
  cases n with
  | event tree path changes =>
    rw [Notice.expired?, Option.filter_none, Option.toList_none, List.append_nil]
    rcases handle_cases w counts tree path changes with ⟨-, hhandle⟩ | ⟨-, -, hqueue⟩
    · rw [take, hhandle, schedule]
      split <;> rfl
    · exact hqueue
  | expiry path =>
    rw [take, expire, Notice.expired?]
    by_cases hp : path ∈ w.pending
    · simp [hp, Option.filter]
    · simp [hp, Option.filter]
  | stop => exact (List.append_nil _).symm

/-! ### What a run of notices does -/

lemma takeAll_concat (notices : List Notice) (n : Notice) :
    w.takeAll counts (notices ++ [n]) = (w.takeAll counts notices).take counts n := by
  simp [takeAll]

lemma waits_concat (notices : List Notice) (n : Notice) :
    waits counts (notices ++ [n]) p =
      (n.starts counts p || (!n.ends p && waits counts notices p)) := by
  rw [waits, List.filter_append]
  cases hstarts : n.starts counts p with
  | true => simp [hstarts]
  | false =>
    cases hends : n.ends p with
    | true => simp [hstarts, hends]
    | false => simp [hstarts, hends, waits]

/-- A path waits if some notice starts its timer and none behind it starts or ends it. -/
lemma waits_iff {notices : List Notice} :
    waits counts notices p = true ↔
      ∃ before n later, notices = before ++ n :: later ∧ n.starts counts p = true ∧
        ∀ m ∈ later, m.starts counts p = false ∧ m.ends p = false := by
  induction notices using List.reverseRecOn with
  | nil => simp [waits]
  | append_singleton notices n ih =>
    rw [waits_concat]
    constructor
    · intro h
      cases hstarts : n.starts counts p with
      | true => exact ⟨notices, n, [], rfl, hstarts, by simp⟩
      | false =>
        simp only [hstarts, Bool.false_or, Bool.and_eq_true, Bool.not_eq_true'] at h
        obtain ⟨before, m, later, rfl, hm, hlater⟩ := ih.mp h.2
        refine ⟨before, m, later ++ [n], by simp, hm, ?_⟩
        exact List.forall_mem_append.mpr ⟨hlater, by simpa using ⟨hstarts, h.1⟩⟩
    · rintro ⟨before, m, later, heq, hm, hlater⟩
      rcases List.eq_nil_or_concat later with rfl | ⟨rest, last, rfl⟩
      · obtain ⟨-, rfl⟩ := List.append_singleton_inj.mp heq
        simp [hm]
      · rw [List.concat_eq_append, ← List.cons_append, ← List.append_assoc] at heq
        rw [List.concat_eq_append] at hlater
        obtain ⟨rfl, rfl⟩ := List.append_singleton_inj.mp heq
        obtain ⟨hrest, hlast⟩ := List.forall_mem_append.mp hlater
        obtain ⟨-, hends⟩ := hlast n (by simp)
        have hwaits := ih.mpr ⟨before, m, rest, rfl, hm, hrest⟩
        simp [hends, hwaits]

lemma delivery_concat_of_lt {notices : List Notice} {i : Nat} (hi : i < notices.length)
    (n : Notice) : delivery? counts (notices ++ [n]) i = delivery? counts notices i := by
  rw [delivery?, delivery?, List.getElem?_append_left hi,
    List.take_append_of_le_length (Nat.le_of_lt hi)]

lemma deliveries_concat (notices : List Notice) (n : Notice) :
    deliveries counts (notices ++ [n]) =
      deliveries counts notices ++ (n.expired?.filter (waits counts notices)).toList := by
  have hold : (List.range notices.length).filterMap (delivery? counts (notices ++ [n])) =
      deliveries counts notices := by
    refine List.filterMap_congr fun i hi => ?_
    exact delivery_concat_of_lt (List.mem_range.mp hi) n
  have hnew : delivery? counts (notices ++ [n]) notices.length =
      n.expired?.filter (waits counts notices) := by
    rw [delivery?, List.getElem?_concat_length, List.take_left]
    rfl
  rw [deliveries, List.length_append, List.length_singleton, List.range_succ, List.filterMap_append,
    hold, ← hnew]
  cases hlast : delivery? counts (notices ++ [n]) notices.length <;> simp [hlast]

section Run

variable (hpending : w.pending = [])
include hpending

/-- The pending paths are those that wait. -/
lemma mem_pending_takeAll (notices : List Notice) :
    p ∈ (w.takeAll counts notices).pending ↔ waits counts notices p = true := by
  induction notices using List.reverseRecOn with
  | nil => simp [takeAll, hpending, waits]
  | append_singleton notices n ih =>
    rw [takeAll_concat, mem_pending_take, waits_concat, ih]
    cases n.ends p <;> simp

lemma nodup_pending_takeAll (notices : List Notice) :
    (w.takeAll counts notices).pending.Nodup := by
  induction notices using List.reverseRecOn with
  | nil => simp [takeAll, hpending]
  | append_singleton notices n ih =>
    rw [takeAll_concat]
    exact nodup_pending_take ih n

/-- The queue holds the paths that are delivered. -/
lemma queue_takeAll (notices : List Notice) :
    (w.takeAll counts notices).queue = w.queue ++ deliveries counts notices := by
  induction notices using List.reverseRecOn with
  | nil => simp [takeAll, deliveries]
  | append_singleton notices n ih =>
    have hwaits : n.expired?.filter (· ∈ (w.takeAll counts notices).pending) =
        n.expired?.filter (waits counts notices) := by
      refine congrArg n.expired?.filter (funext fun p => ?_)
      rw [Bool.eq_iff_iff, decide_eq_true_iff, mem_pending_takeAll hpending]
    rw [takeAll_concat, queue_take, deliveries_concat, ih, hwaits, List.append_assoc]

end Run

/-! ### Bursts -/

lemma delivery_eq_some {notices : List Notice} {i : Nat} :
    delivery? counts notices i = some p ↔
      notices[i]? = some (.expiry p) ∧ waits counts (notices.take i) p = true := by
  rw [delivery?, Option.filter_eq_some_iff, Option.bind_eq_some_iff]
  constructor
  · rintro ⟨⟨n, hn, hexpired⟩, hwaits⟩
    cases n with
    | expiry path =>
      obtain rfl := Option.some.inj hexpired
      exact ⟨hn, hwaits⟩
    | event tree path changes => cases hexpired
    | stop => cases hexpired
  · rintro ⟨hn, hwaits⟩
    exact ⟨⟨_, hn, rfl⟩, hwaits⟩

/-- Between two deliveries of a path there is an event that starts its timer. -/
lemma exists_starts_between {notices : List Notice} {i j : Nat} (hij : i < j)
    (hi : delivery? counts notices i = some p) (hj : delivery? counts notices j = some p) :
    ∃ k n, i < k ∧ k < j ∧ notices[k]? = some n ∧ n.starts counts p = true := by
  obtain ⟨hexpiry, -⟩ := delivery_eq_some.mp hi
  obtain ⟨-, hwaits⟩ := delivery_eq_some.mp hj
  obtain ⟨before, n, later, htake, hstarts, hlater⟩ := waits_iff.mp hwaits
  have hget : ∀ k < j, notices[k]? = (before ++ n :: later)[k]? := by
    intro k hk
    rw [← htake, List.getElem?_take_of_lt hk]
  have hlength : before.length < j := by
    have hle := congrArg List.length htake
    simp only [List.length_take, List.length_append, List.length_cons] at hle
    omega
  refine ⟨before.length, n, ?_, hlength, by rw [hget _ hlength]; simp, hstarts⟩
  -- The timer that runs out at `i` is not behind the event, which is the last to concern the path.
  by_contra hle
  rw [hget i hij] at hexpiry
  rcases Nat.lt_or_ge before.length i with hlt | hge
  · rw [List.getElem?_append_right (by omega)] at hexpiry
    obtain ⟨m, hm⟩ : ∃ m, i - before.length = m + 1 := ⟨i - before.length - 1, by omega⟩
    rw [hm, List.getElem?_cons_succ] at hexpiry
    have hends := (hlater _ (List.mem_of_getElem? hexpiry)).2
    simp [Notice.ends] at hends
  · obtain rfl : i = before.length := by omega
    rw [List.getElem?_append_right (Nat.le_refl _), Nat.sub_self,
      List.getElem?_cons_zero] at hexpiry
    obtain rfl := Option.some.inj hexpiry
    cases hstarts

section Burst

variable {burst : List Notice} (hkept : ∀ n ∈ burst, n.ends p = false)
include hkept

lemma waits_append (hstarts : ∃ n ∈ burst, n.starts counts p = true) (notices : List Notice) :
    waits counts (notices ++ burst) p = true := by
  induction burst using List.reverseRecOn with
  | nil => simp at hstarts
  | append_singleton burst n ih =>
    obtain ⟨hburst, hn⟩ := List.forall_mem_append.mp hkept
    rw [← List.append_assoc, waits_concat]
    by_cases hlast : n.starts counts p = true
    · rw [hlast, Bool.true_or]
    · have hearlier : ∃ m ∈ burst, m.starts counts p = true := by
        obtain ⟨m, hm, hstart⟩ := hstarts
        rcases List.mem_append.mp hm with hm | hm
        · exact ⟨m, hm, hstart⟩
        · exact absurd (List.mem_singleton.mp hm ▸ hstart) hlast
      rw [ih hburst hearlier, hn n (by simp)]
      simp

lemma count_deliveries_append (notices : List Notice) :
    (deliveries counts (notices ++ burst)).count p = (deliveries counts notices).count p := by
  induction burst using List.reverseRecOn with
  | nil => simp
  | append_singleton burst n ih =>
    obtain ⟨hburst, hn⟩ := List.forall_mem_append.mp hkept
    have hother : p ∉ (n.expired?.filter (waits counts (notices ++ burst))).toList := by
      intro hmem
      obtain ⟨hexpired, -⟩ := Option.filter_eq_some_iff.mp (Option.mem_toList.mp hmem)
      have hends := hn n (by simp)
      cases n with
      | expiry path => simp [Notice.ends, Option.some.inj hexpired] at hends
      | event tree path changes => cases hexpired
      | stop => cases hexpired
    rw [← List.append_assoc, deliveries_concat, List.count_append, ih hburst,
      List.count_eq_zero_of_not_mem hother, Nat.add_zero]

end Burst

lemma timers_start (t : FileTree) (dirs : List Text) (w : Watcher) :
    (start t dirs w).1.pending = w.pending ∧ (start t dirs w).1.queue = w.queue := by
  induction dirs generalizing w with
  | nil => exact ⟨rfl, rfl⟩
  | cons dir rest ih =>
    rw [start]
    cases hadd : w.addBelow t dir with
    | error e => exact ⟨rfl, rfl⟩
    | ok w' =>
      obtain ⟨hpending, hqueue⟩ := timers_addBelow hadd
      rw [← hpending, ← hqueue]
      exact ih (w'.tell .info ("watching " ++ dir))

/-- No change is lost, and none is delivered twice. Take any notices after a watcher has been
started. The pending paths are those whose latest notice, among the events that start their timers
and the notices that end these, is an event. The paths to be delivered are those whose timers have
run out while they were pending, in order. So there is an event between two deliveries of a path,
and a path is delivered once if it has events, and no end of its timer but the last one. Other
events, and timers that are not running, change nothing, and events on other paths do not matter. -/
theorem changes_delivered_once (counts : Text → Bool) (t : FileTree) (dirs : List Text)
    (notices : List Notice) :
    let w := (start t dirs {}).1
    let after := w.takeAll counts notices
    after.pending.Nodup ∧ (∀ p, p ∈ after.pending ↔ waits counts notices p = true) ∧
    after.queue = deliveries counts notices ∧ after.deliver.2 = deliveries counts notices ∧
    (∀ p i j, i < j → delivery? counts notices i = some p → delivery? counts notices j = some p →
      ∃ k n, i < k ∧ k < j ∧ notices[k]? = some n ∧ n.starts counts p = true) ∧
    (∀ p burst, (∃ n ∈ burst, n.starts counts p = true) → (∀ n ∈ burst, n.ends p = false) →
      let settled := w.takeAll counts (notices ++ burst ++ [.expiry p])
      settled.queue.count p = after.queue.count p + 1 ∧ p ∉ settled.pending) ∧
    (∀ tree path changes, let next := after.take counts (.event tree path changes)
      ((Notice.event tree path changes).starts counts path = false →
        next.pending = after.pending ∧ next.queue = after.queue) ∧
      ∀ p, p ≠ path → (p ∈ next.pending ↔ p ∈ after.pending) ∧ next.queue = after.queue) ∧
    (∀ p, p ∉ after.pending → after.take counts (.expiry p) = after) := by
  intro w after
  obtain ⟨hpending, hqueue⟩ := timers_start t dirs {}
  have hdelivered : ∀ ns, (w.takeAll counts ns).queue = deliveries counts ns := by
    intro ns
    rw [queue_takeAll hpending, hqueue]
    rfl
  refine ⟨nodup_pending_takeAll hpending notices, fun p => mem_pending_takeAll hpending notices,
    hdelivered notices, hdelivered notices, fun p i j => exists_starts_between, ?_, ?_, ?_⟩
  · intro p burst hstarts hkept settled
    have hwaits := waits_append hkept hstarts notices
    constructor
    · rw [hdelivered, hdelivered, deliveries_concat, List.count_append,
        count_deliveries_append hkept]
      simp [Notice.expired?, Option.filter, hwaits]
    · rw [mem_pending_takeAll hpending, waits_concat]
      simp [Notice.starts, Notice.ends]
  · intro tree path changes next
    have hevent : next.queue = after.queue := by
      rw [queue_take]
      exact List.append_nil _
    refine ⟨fun hnone => ⟨?_, hevent⟩, fun p hp => ⟨?_, hevent⟩⟩
    · rcases handle_cases after counts tree path changes with ⟨hstarts, -⟩ | ⟨-, h, -⟩
      · rw [hnone] at hstarts
        cases hstarts
      · exact h
    · rw [mem_pending_take, starts_event_iff]
      simp [hp, Notice.ends]
  · intro p hp
    rw [take, expire, if_neg (by simpa using hp)]

/-- Two writes of one unit, and one of another in between. -/
def interleaved : List Notice :=
  [.event {} "a.json" [.write], .event {} "b.json" [.write], .event {} "a.json" [.write]]

theorem interleaved_writes_delivered_once :
    (∃ n ∈ interleaved, n.starts isUnit "a.json" = true) ∧
      let settled := (start {} [] {}).1.takeAll isUnit (interleaved ++ [.expiry "a.json"])
      settled.queue.count ("a.json" : Text) = 1 ∧ ("a.json" : Text) ∉ settled.pending := by
  have hstarts : ∃ n ∈ interleaved, n.starts isUnit "a.json" = true :=
    ⟨_, List.mem_cons_self, by decide⟩
  obtain ⟨-, -, -, -, -, hburst, -⟩ := changes_delivered_once isUnit {} [] []
  exact ⟨hstarts, hburst "a.json" interleaved hstarts (by simp [interleaved, Notice.ends])⟩

end SheetFormula.Watcher
