import Mathlib.Algebra.GroupWithZero.Nat
import Mathlib.Logic.Relation
import Mathlib.Tactic.Lemma
import SheetFormula.Batch

/-!
# Batches with several workers

The tasks of a batch run side by side, at most as many at a time as there are workers. A task that
has got a worker checks whether the batch is cancelled, compiles its file, logs a line, delivers its
result and ends. Steps of different tasks interleave in any order. The first failure that a task
ends with cancels the batch: tasks that have not started yet end without compiling.

Every interleaving comes to an end. With one worker there is one outcome, that of the tasks taken in
turn, and this outcome is possible with any number of workers.
-/

namespace SheetFormula.Batch

/-! ### Steps of tasks -/

/-- What a batch does to its surroundings. -/
inductive Effect where
  | line (l : LogLine)
  | delivery (path : Text) (r : CompileResult)

def Effect.line? : Effect → Option LogLine
  | line l => some l
  | delivery .. => none

def Effect.delivery? : Effect → Option (Text × CompileResult)
  | line _ => none
  | delivery path r => some (path, r)

def linesIn (effects : List Effect) : Log := effects.filterMap Effect.line?

def deliveriesIn (effects : List Effect) : List (Text × CompileResult) :=
  effects.filterMap Effect.delivery?

/-- How far a task has come since it got its worker. -/
inductive Phase where
  | assigned
  | started
  | compiled (r : CompileResult)
  | logged (r : CompileResult)
  | ended (failure : Option Failure)

/-- A task that has a worker. -/
structure Task where
  path : Text
  phase : Phase

/-- How many steps a task can still take. -/
def Task.rank (t : Task) : Nat :=
  match t.phase with
  | .assigned => 5
  | .started => 4
  | .compiled _ => 3
  | .logged _ => 2
  | .ended _ => 1

/-- The file of a task, if its line has not been logged. -/
def Task.unlogged (t : Task) : List Text :=
  match t.phase with
  | .assigned | .started | .compiled _ => [t.path]
  | .logged _ | .ended _ => []

/-- The file of a task, if its result has not been delivered. -/
def Task.undelivered (t : Task) : List Text :=
  match t.phase with
  | .ended _ => []
  | _ => [t.path]

def Task.failure? (t : Task) : Option Failure :=
  match t.phase with
  | .ended failure => failure
  | _ => none

/-- A task that has its file's own result, as long as it has a result. -/
def Task.Owned (compile : Text → CompileResult) (t : Task) : Prop :=
  match t.phase with
  | .compiled r | .logged r => r = compile t.path
  | _ => True

/-- A batch in progress. -/
structure Pool where
  /-- The files that wait for a worker. -/
  queue : List Text
  running : List Task := []
  /-- The first failure that a task has ended with. -/
  failure : Option Failure := none
  /-- All that has been done to the surroundings. -/
  effects : List Effect := []

namespace Pool

def Finished (pool : Pool) : Prop := pool.queue = [] ∧ pool.running = []

/-- How many steps can still be taken. -/
def rank (pool : Pool) : Nat := 6 * pool.queue.length + (pool.running.map Task.rank).sum

/-- The failure that the batch has been told of, and those of tasks that have just ended. -/
def failures (pool : Pool) : List Failure :=
  pool.failure.toList ++ pool.running.filterMap Task.failure?

def lines (pool : Pool) : Log := linesIn pool.effects

def deliveries (pool : Pool) : List (Text × CompileResult) := deliveriesIn pool.effects

def unlogged (pool : Pool) : List Text := pool.running.flatMap Task.unlogged ++ pool.queue

def undelivered (pool : Pool) : List Text := pool.running.flatMap Task.undelivered ++ pool.queue

end Pool

/-- How a batch is run: in which surroundings, and with how many workers. -/
structure Plan (σ : Type) where
  around : Surroundings σ
  mode : OutputMode
  compile : Text → CompileResult
  workers : Nat
  /-- The state of the surroundings at the start. -/
  start : σ

namespace Plan

variable {σ : Type} (plan : Plan σ)

/-- What an effect makes of a state of the surroundings. -/
def affect (s : σ) : Effect → σ
  | .line l => plan.around.log s l
  | .delivery path r => (plan.around.deliver s path r).1

/-- The state of the surroundings after some effects. -/
def state (effects : List Effect) : σ := effects.foldl plan.affect plan.start

/-- Whether the surroundings have cancelled the batch. -/
def isCanceled (effects : List Effect) : Bool := plan.around.isCanceled (plan.state effects)

/-- The answer to a result that is delivered after some effects. -/
def answer (effects : List Effect) (path : Text) (r : CompileResult) : Option Failure :=
  (plan.around.deliver (plan.state effects) path r).2

/-- The effect of logging how a file was compiled. -/
def line (path : Text) (r : CompileResult) : Effect := .line (progress plan.mode path r)

/-- One step of a batch. -/
inductive Step : Pool → Pool → Prop
  /-- A file gets a free worker. -/
  | assign {p queue running failure effects} (h : running.length < plan.workers) :
    Step ⟨p :: queue, running, failure, effects⟩
      ⟨queue, running ++ [⟨p, .assigned⟩], failure, effects⟩
  | start (before after) {p queue effects} (h : plan.isCanceled effects = false) :
    Step ⟨queue, before ++ ⟨p, .assigned⟩ :: after, none, effects⟩
      ⟨queue, before ++ ⟨p, .started⟩ :: after, none, effects⟩
  /-- A task finds the batch cancelled. -/
  | refuse (before after) {p queue failure effects}
    (h : failure ≠ none ∨ plan.isCanceled effects = true) :
    Step ⟨queue, before ++ ⟨p, .assigned⟩ :: after, failure, effects⟩
      ⟨queue, before ++ ⟨p, .ended (some .canceled)⟩ :: after, failure, effects⟩
  | compile (before after) {p queue failure effects} :
    Step ⟨queue, before ++ ⟨p, .started⟩ :: after, failure, effects⟩
      ⟨queue, before ++ ⟨p, .compiled (plan.compile p)⟩ :: after, failure, effects⟩
  | log (before after) {p r queue failure effects} :
    Step ⟨queue, before ++ ⟨p, .compiled r⟩ :: after, failure, effects⟩
      ⟨queue, before ++ ⟨p, .logged r⟩ :: after, failure, effects ++ [plan.line p r]⟩
  | deliver (before after) {p r queue failure effects} :
    Step ⟨queue, before ++ ⟨p, .logged r⟩ :: after, failure, effects⟩
      ⟨queue, before ++ ⟨p, .ended (plan.answer effects p r)⟩ :: after, failure,
        effects ++ [.delivery p r]⟩
  /-- A task gives its worker back. The first failure stays. -/
  | finish (before after) {p f queue failure effects} :
    Step ⟨queue, before ++ ⟨p, .ended f⟩ :: after, failure, effects⟩
      ⟨queue, before ++ after, failure.or f, effects⟩

/-- The batches in progress that some files can lead to. -/
def Reaches (paths : List Text) (pool : Pool) : Prop :=
  Relation.ReflTransGen plan.Step { queue := paths } pool

/-- The batches that some files can end in. -/
def EndsIn (paths : List Text) (pool : Pool) : Prop := plan.Reaches paths pool ∧ pool.Finished

/-- What a batch comes to: the state of the surroundings, and a failure if there is one. -/
def result (pool : Pool) : σ × Option Failure := (plan.state pool.effects, pool.failure)

/-- Every interleaving of the steps for some files comes to an end, with at most six steps for each
file. It stops only when nothing is left to be done, and never uses more workers than there are. -/
structure Terminates (paths : List Text) : Prop where
  bounded : ∀ (pools : Nat → Pool) (n : Nat), pools 0 = { queue := paths } →
    (∀ i < n, plan.Step (pools i) (pools (i + 1))) → n ≤ 6 * paths.length
  limited : ∀ pool, plan.Reaches paths pool → pool.running.length ≤ plan.workers
  progressing : ∀ pool, plan.Reaches paths pool → pool.Finished ∨ ∃ next, plan.Step pool next

def Uncanceled : Prop := ∀ effects, plan.isCanceled effects = false

def Unstopped : Prop := ∀ effects p r, plan.answer effects p r = none

variable {plan} {pool next : Pool} {paths : List Text}

/-- What holds at first and is kept by every step holds throughout. -/
lemma Reaches.invariant {P : Pool → Prop} (h : plan.Reaches paths pool)
    (hinit : P { queue := paths }) (hstep : ∀ a b, P a → plan.Step a b → P b) : P pool := by
  induction h with
  | refl => exact hinit
  | tail _ step ih => exact hstep _ _ ih step

/-! ### Every interleaving comes to an end -/

lemma rank_step (h : plan.Step pool next) : next.rank < pool.rank := by
  cases h <;>
    · simp only [Pool.rank, Task.rank, List.map_append, List.map_cons, List.map_nil,
        List.sum_append, List.sum_cons, List.sum_nil, List.length_cons]
      omega

/-- A run of steps is no longer than the rank of its start. -/
lemma length_le_rank {run : Nat → Pool} {n : Nat} (h : ∀ i < n, plan.Step (run i) (run (i + 1))) :
    (run n).rank + n ≤ (run 0).rank := by
  induction n with
  | zero => omega
  | succ n ih =>
    have hshorter := ih fun i hi => h i (by omega)
    have hlast := rank_step (h n (by omega))
    omega

/-- A batch goes on until nothing is left to be done. -/
lemma exists_step (hworkers : 0 < plan.workers) (h : ¬ pool.Finished) :
    ∃ next, plan.Step pool next := by
  obtain ⟨queue, running, failure, effects⟩ := pool
  cases running with
  | nil =>
    cases queue with
    | nil => exact absurd ⟨rfl, rfl⟩ h
    | cons p queue => exact ⟨_, .assign hworkers⟩
  | cons task rest =>
    obtain ⟨p, phase⟩ := task
    cases phase with
    | assigned =>
      by_cases hrefuse : failure ≠ none ∨ plan.isCanceled effects = true
      · exact ⟨_, .refuse [] rest hrefuse⟩
      · obtain ⟨hnone, hlive⟩ := not_or.mp hrefuse
        obtain rfl : failure = none := Classical.not_not.mp hnone
        exact ⟨_, .start [] rest (Bool.eq_false_iff.mpr hlive)⟩
    | started => exact ⟨_, .compile [] rest⟩
    | compiled r => exact ⟨_, .log [] rest⟩
    | logged r => exact ⟨_, .deliver [] rest⟩
    | ended f => exact ⟨_, .finish [] rest⟩

lemma running_step (hle : pool.running.length ≤ plan.workers) (h : plan.Step pool next) :
    next.running.length ≤ plan.workers := by
  cases h <;>
    · simp only [List.length_append, List.length_cons, List.length_nil] at *
      omega

lemma terminates (hworkers : 0 < plan.workers) (paths : List Text) : plan.Terminates paths := by
  refine ⟨?_, ?_, ?_⟩
  · intro pools n hstart hsteps
    have hbound := length_le_rank hsteps
    rw [hstart] at hbound
    simp only [Pool.rank, List.map_nil, List.sum_nil] at hbound
    omega
  · intro pool hpool
    exact hpool.invariant (Nat.zero_le _) fun _ _ => running_step
  · intro pool _
    by_cases hfinished : pool.Finished
    · exact .inl hfinished
    · exact .inr (exists_step hworkers hfinished)

/-! ### Failures -/

lemma mem_failures_at {queue : List Text} {before after : List Task} {t : Task}
    {failure : Option Failure} {effects : List Effect} {f : Failure} :
    f ∈ Pool.failures ⟨queue, before ++ t :: after, failure, effects⟩ ↔
      f ∈ Pool.failures ⟨queue, before ++ after, failure, effects⟩ ∨ t.failure? = some f := by
  simp only [Pool.failures, List.filterMap_append, List.mem_append, List.mem_filterMap,
    List.mem_cons, or_and_right, exists_or, exists_eq_left]
  grind

lemma mem_failures_of_replace {queue : List Text} {before after : List Task} {t t' : Task}
    {failure : Option Failure} {effects effects' : List Effect} {f : Failure}
    (hf : f ∈ Pool.failures ⟨queue, before ++ t' :: after, failure, effects'⟩)
    (h : t'.failure? = t.failure?) :
    f ∈ Pool.failures ⟨queue, before ++ t :: after, failure, effects⟩ := by
  rw [mem_failures_at, h] at hf
  exact mem_failures_at.mpr hf

/-- A failure is an old one, or it comes from a task that has found the batch cancelled, or it is
the answer to a result. -/
lemma origin_of_mem_failures {f : Failure} (hstep : plan.Step pool next)
    (hf : f ∈ next.failures) :
    f ∈ pool.failures ∨
      f = .canceled ∧ (pool.failures ≠ [] ∨ plan.isCanceled pool.effects = true) ∨
      ∃ p r, plan.answer pool.effects p r = some f := by
  cases hstep with
  | assign hfree => exact .inl (by simpa [Pool.failures, Task.failure?] using hf)
  | start before after _ => exact .inl (mem_failures_of_replace hf rfl)
  | refuse before after hrefuse =>
    rcases mem_failures_at.mp hf with hf | hf
    · exact .inl (mem_failures_at.mpr (.inl hf))
    · refine .inr (.inl ⟨(Option.some.inj hf).symm, ?_⟩)
      rcases hrefuse with hrefuse | hrefuse
      · exact .inl (by simp [Pool.failures, hrefuse])
      · exact .inr hrefuse
  | compile before after => exact .inl (mem_failures_of_replace hf rfl)
  | log before after => exact .inl (mem_failures_of_replace hf rfl)
  | @deliver before after p r =>
    rcases mem_failures_at.mp hf with hf | hf
    · exact .inl (mem_failures_at.mpr (.inl hf))
    · exact .inr (.inr ⟨p, r, hf⟩)
  | @finish before after p g queue failure effects =>
    refine .inl (mem_failures_at.mpr ?_)
    cases failure with
    | some _ => exact .inl hf
    | none =>
      rcases List.mem_append.mp hf with hf | hf
      · exact .inr (by simpa [Task.failure?] using hf)
      · exact .inl hf

/-- A batch with a failure never gets rid of all its failures. -/
lemma failures_ne_nil_step (hstep : plan.Step pool next) (h : pool.failures ≠ []) :
    next.failures ≠ [] := by
  obtain ⟨f, hf⟩ := List.exists_mem_of_ne_nil _ h
  cases hstep with
  | assign hfree => simpa [Pool.failures, Task.failure?] using h
  | start before after _ => exact List.ne_nil_of_mem (mem_failures_of_replace hf rfl)
  | refuse before after hrefuse => exact List.ne_nil_of_mem (mem_failures_at.mpr (.inr rfl))
  | compile before after => exact List.ne_nil_of_mem (mem_failures_of_replace hf rfl)
  | log before after => exact List.ne_nil_of_mem (mem_failures_of_replace hf rfl)
  | deliver before after =>
    rcases mem_failures_at.mp hf with hf | hf
    · exact List.ne_nil_of_mem (mem_failures_at.mpr (.inl hf))
    · cases hf
  | @finish before after p g queue failure effects =>
    cases failure with
    | some f => exact List.cons_ne_nil f _
    | none =>
      rcases mem_failures_at.mp hf with hf | hf
      · exact List.ne_nil_of_mem (List.mem_append_right _ hf)
      · obtain rfl : g = some f := hf
        exact List.cons_ne_nil f _

/-- What holds of a cancellation, where one is possible, and of all answers holds of all
failures. -/
lemma Reaches.failures {P : Failure → Prop} (h : plan.Reaches paths pool)
    (hlater : ∀ f, P f → P .canceled)
    (hcanceled : ∀ effects, plan.isCanceled effects = true → P .canceled)
    (hanswer : ∀ effects p r f, plan.answer effects p r = some f → P f) :
    ∀ f ∈ pool.failures, P f := by
  refine h.invariant (P := fun pool => ∀ f ∈ pool.failures, P f) (by simp [Pool.failures]) ?_
  intro a b hall hstep f hf
  rcases origin_of_mem_failures hstep hf with hold | ⟨rfl, hnew | hnew⟩ | ⟨p, r, hnew⟩
  · exact hall f hold
  · obtain ⟨g, hg⟩ := List.exists_mem_of_ne_nil _ hnew
    exact hlater g (hall g hg)
  · exact hcanceled _ hnew
  · exact hanswer _ p r f hnew

lemma Reaches.failure_eq_none (h : plan.Reaches paths pool) (hlive : plan.Uncanceled)
    (hgoes : plan.Unstopped) : pool.failure = none := by
  have hnone := h.failures (P := fun _ => False) (fun _ hf => hf)
    (fun effects hcanceled => by simp [hlive effects] at hcanceled)
    (fun effects p r f hanswer => by simp [hgoes effects p r] at hanswer)
  cases hfailure : pool.failure with
  | none => rfl
  | some f => exact absurd (hnone f (by simp [Pool.failures, hfailure])) not_false

/-! ### Every file is delivered once -/

def lineOf (plan : Plan σ) (p : Text) : LogLine := progress plan.mode p (plan.compile p)

def own (plan : Plan σ) (p : Text) : Text × CompileResult := (p, plan.compile p)

/-- What has been logged and what is still to be logged are together the lines of all files, and in
the same way for what is delivered. -/
structure Accounts (plan : Plan σ) (paths : List Text) (pool : Pool) : Prop where
  owned : ∀ t ∈ pool.running, t.Owned plan.compile
  lines : (pool.lines ++ pool.unlogged.map plan.lineOf).Perm (paths.map plan.lineOf)
  deliveries : (pool.deliveries ++ pool.undelivered.map plan.own).Perm (paths.map plan.own)

lemma perm_move {α : Type} {done more before rest whole after : List α} (h : more ++ rest = whole) :
    (done ++ (more ++ (before ++ (rest ++ after)))).Perm
      (done ++ (before ++ (whole ++ after))) := by
  subst h
  have hswap : (more ++ before ++ (rest ++ after)).Perm (before ++ more ++ (rest ++ after)) :=
    List.Perm.append_right _ List.perm_append_comm
  simpa only [List.append_assoc] using hswap.append_left done

/-- A task may be replaced by others that are to log and deliver what it was to, apart from what is
logged and delivered in this step. -/
lemma Accounts.replace {queue : List Text} {before after : List Task} {t : Task}
    {failure failure' : Option Failure} {effects : List Effect}
    (h : plan.Accounts paths ⟨queue, before ++ t :: after, failure, effects⟩) (ts : List Task)
    (more : List Effect) (howned : ∀ t ∈ ts, t.Owned plan.compile)
    (hlines : linesIn more ++ (ts.flatMap Task.unlogged).map plan.lineOf =
      t.unlogged.map plan.lineOf)
    (hdeliveries : deliveriesIn more ++ (ts.flatMap Task.undelivered).map plan.own =
      t.undelivered.map plan.own) :
    plan.Accounts paths ⟨queue, before ++ (ts ++ after), failure', effects ++ more⟩ := by
  obtain ⟨hall, hlogged, hdelivered⟩ := h
  obtain ⟨hbefore, hall⟩ := List.forall_mem_append.mp hall
  obtain ⟨-, hafter⟩ := List.forall_mem_cons.mp hall
  refine ⟨?_, ?_, ?_⟩
  · exact List.forall_mem_append.mpr ⟨hbefore, List.forall_mem_append.mpr ⟨howned, hafter⟩⟩
  · refine List.Perm.trans ?_ hlogged
    simp only [Pool.lines, linesIn, Pool.unlogged, List.filterMap_append, List.flatMap_append,
      List.flatMap_cons, List.map_append, List.append_assoc]
    exact perm_move hlines
  · refine List.Perm.trans ?_ hdelivered
    simp only [Pool.deliveries, deliveriesIn, Pool.undelivered, List.filterMap_append,
      List.flatMap_append, List.flatMap_cons, List.map_append, List.append_assoc]
    exact perm_move hdeliveries

/-- A step keeps the accounts, unless it is that of a task that finds the batch cancelled. -/
lemma Accounts.step (h : plan.Accounts paths pool) (hstep : plan.Step pool next) :
    next.failures ≠ [] ∨ plan.Accounts paths next := by
  cases hstep with
  | assign hfree =>
    obtain ⟨howned, hlines, hdeliveries⟩ := h
    refine .inr ⟨?_, ?_, ?_⟩
    · exact List.forall_mem_append.mpr ⟨howned, by simp [Task.Owned]⟩
    · simpa [Pool.lines, Pool.unlogged, Task.unlogged] using hlines
    · simpa [Pool.deliveries, Pool.undelivered, Task.undelivered] using hdeliveries
  | start before after _ =>
    right
    simpa using h.replace [⟨_, .started⟩] [] (by simp [Task.Owned]) rfl rfl
  | refuse before after hrefuse =>
    left
    exact List.ne_nil_of_mem (mem_failures_at.mpr (.inr rfl))
  | compile before after =>
    right
    simpa using h.replace [⟨_, .compiled _⟩] [] (by simp [Task.Owned]) rfl rfl
  | @log before after p r =>
    obtain rfl : r = plan.compile p := h.owned ⟨p, .compiled r⟩ (by simp)
    right
    simpa using h.replace [⟨p, .logged _⟩] [plan.line p _] (by simp [Task.Owned]) rfl rfl
  | @deliver before after p r =>
    obtain rfl : r = plan.compile p := h.owned ⟨p, .logged r⟩ (by simp)
    right
    simpa using h.replace [⟨p, .ended _⟩] [.delivery p _] (by simp [Task.Owned]) rfl rfl
  | finish before after =>
    right
    simpa using h.replace [] [] (by simp) rfl rfl

/-- When all is done without failure, each file has been logged and delivered once, with its own
result. -/
lemma EndsIn.delivered (h : plan.EndsIn paths pool) (hnone : pool.failure = none) :
    pool.lines.Perm (paths.map plan.lineOf) ∧ pool.deliveries.Perm (paths.map plan.own) := by
  obtain ⟨hreaches, hqueue, hrunning⟩ := h
  have hinit : plan.Accounts paths { queue := paths } := by
    refine ⟨by simp, ?_, ?_⟩
    · exact List.Perm.refl _
    · exact List.Perm.refl _
  have hinvariant : pool.failures ≠ [] ∨ plan.Accounts paths pool := by
    refine hreaches.invariant (P := fun pool => pool.failures ≠ [] ∨ plan.Accounts paths pool)
      (.inr hinit) ?_
    rintro a b (hfailures | haccounts) hstep
    · exact .inl (failures_ne_nil_step hstep hfailures)
    · exact haccounts.step hstep
  rcases hinvariant with hfailures | ⟨-, hlines, hdeliveries⟩
  · simp [Pool.failures, hnone, hrunning] at hfailures
  · constructor
    · simpa [Pool.unlogged, hqueue, hrunning] using hlines
    · simpa [Pool.undelivered, hqueue, hrunning] using hdeliveries

/-! ### A batch that is cancelled before it starts -/

/-- A batch that has done nothing and that ends in cancellation. -/
structure Dropped (pool : Pool) : Prop where
  effects : pool.effects = []
  tasks : ∀ t ∈ pool.running, t.phase = .assigned ∨ t.phase = .ended (some .canceled)
  failure : pool.failure = some .canceled ∨
    pool.failure = none ∧ pool.queue.length + pool.running.length ≠ 0

lemma Dropped.step (hcanceled : plan.isCanceled [] = true) (h : Dropped pool)
    (hstep : plan.Step pool next) : Dropped next := by
  obtain ⟨heffects, htasks, hfailure⟩ := h
  -- A task that has started would be in a phase that no task of the batch is in.
  cases hstep with
  | assign hfree =>
    refine ⟨heffects, List.forall_mem_append.mpr ⟨htasks, by simp⟩, ?_⟩
    rcases hfailure with hfailure | ⟨hfailure, -⟩
    · exact .inl hfailure
    · exact .inr ⟨hfailure, by simp⟩
  | start before after hlive =>
    cases heffects
    simp [hcanceled] at hlive
  | refuse before after hrefuse =>
    obtain ⟨hbefore, htasks⟩ := List.forall_mem_append.mp htasks
    obtain ⟨-, hafter⟩ := List.forall_mem_cons.mp htasks
    refine ⟨heffects, ?_, ?_⟩
    · exact List.forall_mem_append.mpr
        ⟨hbefore, List.forall_mem_cons.mpr ⟨.inr rfl, hafter⟩⟩
    · rcases hfailure with hfailure | ⟨hfailure, -⟩
      · exact .inl hfailure
      · exact .inr ⟨hfailure, by simp⟩
  | @compile before after p => simpa using htasks ⟨p, .started⟩ (by simp)
  | @log before after p r => simpa using htasks ⟨p, .compiled r⟩ (by simp)
  | @deliver before after p r => simpa using htasks ⟨p, .logged r⟩ (by simp)
  | @finish before after p f =>
    have hf : f = some .canceled := by simpa using htasks ⟨p, .ended f⟩ (by simp)
    obtain ⟨hbefore, htasks⟩ := List.forall_mem_append.mp htasks
    obtain ⟨-, hafter⟩ := List.forall_mem_cons.mp htasks
    refine ⟨heffects, List.forall_mem_append.mpr ⟨hbefore, hafter⟩, .inl ?_⟩
    rcases hfailure with hfailure | ⟨hfailure, -⟩
    · simp only at hfailure
      rw [hfailure, Option.some_or]
    · simp only at hfailure
      rw [hfailure, Option.none_or, hf]

/-- A batch that is cancelled before it starts does nothing, and ends in cancellation. -/
lemma Reaches.dropped (hcanceled : plan.isCanceled [] = true) (hsome : paths ≠ [])
    (h : plan.Reaches paths pool) :
    pool.effects = [] ∧ (pool.Finished → pool.failure = some .canceled) := by
  have hinit : Dropped { queue := paths } := by
    refine ⟨rfl, by simp, .inr ⟨rfl, ?_⟩⟩
    simpa using hsome
  obtain ⟨heffects, -, hfailure⟩ := h.invariant hinit fun _ _ => Dropped.step hcanceled
  refine ⟨heffects, ?_⟩
  rintro ⟨hqueue, hrunning⟩
  rcases hfailure with hfailure | ⟨-, hleft⟩
  · exact hfailure
  · simp [hqueue, hrunning] at hleft

/-! ### One worker -/

/-- The effects up to the line about a file. -/
def logged (plan : Plan σ) (p : Text) (effects : List Effect) : List Effect :=
  effects ++ [plan.line p (plan.compile p)]

/-- The effects up to the result of a file. -/
def delivered (plan : Plan σ) (p : Text) (effects : List Effect) : List Effect :=
  plan.logged p effects ++ [.delivery p (plan.compile p)]

/-- What comes of the files of a queue when they are taken in turn. -/
def inTurn (plan : Plan σ) : List Text → List Effect → List Effect × Option Failure
  | [], effects => (effects, none)
  | p :: rest, effects =>
    if plan.isCanceled effects then (effects, some .canceled)
    else
      match plan.answer (plan.logged p effects) p (plan.compile p) with
      | none => plan.inTurn rest (plan.delivered p effects)
      | some f => (plan.delivered p effects, some f)

lemma state_append (effects : List Effect) (e : Effect) :
    plan.state (effects ++ [e]) = plan.affect (plan.state effects) e := by
  simp [state]

/-- The tasks of a batch, taken in turn, do to the surroundings what a run does. -/
lemma run_eq_inTurn (plan : Plan σ) (paths : List Text) (effects : List Effect) :
    run plan.around plan.mode plan.compile paths (plan.state effects) =
      (plan.state (plan.inTurn paths effects).1, (plan.inTurn paths effects).2) := by
  induction paths generalizing effects with
  | nil => rfl
  | cons p rest ih =>
    rw [run, inTurn]
    change (if plan.isCanceled effects then _ else _) = _
    by_cases hcanceled : plan.isCanceled effects = true
    · rw [if_pos hcanceled, if_pos hcanceled]
    · rw [if_neg hcanceled, if_neg hcanceled]
      have hlog : plan.around.log (plan.state effects) (progress plan.mode p (plan.compile p)) =
          plan.state (plan.logged p effects) := by
        rw [logged, state_append, line, affect]
      simp only [hlog]
      rcases hdeliver : plan.around.deliver (plan.state (plan.logged p effects)) p (plan.compile p)
        with ⟨s, f⟩
      have hstate : s = plan.state (plan.delivered p effects) := by
        rw [delivered, state_append, affect, hdeliver]
      have hanswer : plan.answer (plan.logged p effects) p (plan.compile p) = f := by
        rw [answer, hdeliver]
      subst hstate
      rw [hanswer]
      cases f with
      | none => exact ih _
      | some f => rfl

/-- What is left of a batch without running tasks. -/
def resume (plan : Plan σ) (failure : Option Failure) (queue : List Text) (effects : List Effect) :
    List Effect × Option Failure :=
  match failure with
  | some f => (effects, some f)
  | none => plan.inTurn queue effects

/-- What a batch with at most one running task comes to. -/
def outcome (plan : Plan σ) (pool : Pool) : List Effect × Option Failure :=
  match pool.running with
  | [] => plan.resume pool.failure pool.queue pool.effects
  | t :: _ =>
    let onDelivery (r : CompileResult) (effects : List Effect) : List Effect × Option Failure :=
      plan.resume (pool.failure.or (plan.answer effects t.path r)) pool.queue
        (effects ++ [.delivery t.path r])
    match t.phase with
    | .assigned => plan.resume pool.failure (t.path :: pool.queue) pool.effects
    | .started => onDelivery (plan.compile t.path) (plan.logged t.path pool.effects)
    | .compiled r => onDelivery r (pool.effects ++ [plan.line t.path r])
    | .logged r => onDelivery r pool.effects
    | .ended f => plan.resume (pool.failure.or f) pool.queue pool.effects

lemma eq_nil_of_length_le {before after : List Task} {t : Task}
    (h : (before ++ t :: after).length ≤ 1) : before = [] ∧ after = [] := by
  rw [List.length_append, List.length_cons] at h
  constructor
  · exact List.eq_nil_of_length_eq_zero (by omega)
  · exact List.eq_nil_of_length_eq_zero (by omega)

lemma resume_cons_of_live {p : Text} {queue : List Text} {effects : List Effect}
    (hlive : plan.isCanceled effects = false) :
    plan.resume none (p :: queue) effects =
      plan.resume (plan.answer (plan.logged p effects) p (plan.compile p)) queue
        (plan.delivered p effects) := by
  rw [resume, inTurn, if_neg (by simp [hlive])]
  cases plan.answer (plan.logged p effects) p (plan.compile p) <;> rfl

lemma resume_cons_of_canceled {p : Text} {failure : Option Failure} {queue : List Text}
    {effects : List Effect} (h : failure ≠ none ∨ plan.isCanceled effects = true) :
    plan.resume failure (p :: queue) effects =
      plan.resume (failure.or (some .canceled)) queue effects := by
  cases failure with
  | some f => rfl
  | none =>
    have hcanceled : plan.isCanceled effects = true := by simpa using h
    rw [resume, inTurn, if_pos hcanceled]
    rfl

/-- A step with one worker does not change what the batch comes to. -/
lemma outcome_step (hone : plan.workers = 1) (hle : pool.running.length ≤ plan.workers)
    (hstep : plan.Step pool next) : plan.outcome next = plan.outcome pool := by
  rw [hone] at hle
  cases hstep with
  | @assign p queue running failure effects hfree =>
    obtain rfl : running = [] := List.eq_nil_of_length_eq_zero (by omega)
    rfl
  | start before after hlive =>
    obtain ⟨rfl, rfl⟩ := eq_nil_of_length_le hle
    exact (resume_cons_of_live hlive).symm
  | refuse before after hrefuse =>
    obtain ⟨rfl, rfl⟩ := eq_nil_of_length_le hle
    exact (resume_cons_of_canceled hrefuse).symm
  | compile before after =>
    obtain ⟨rfl, rfl⟩ := eq_nil_of_length_le hle
    rfl
  | log before after =>
    obtain ⟨rfl, rfl⟩ := eq_nil_of_length_le hle
    rfl
  | deliver before after =>
    obtain ⟨rfl, rfl⟩ := eq_nil_of_length_le hle
    rfl
  | finish before after =>
    obtain ⟨rfl, rfl⟩ := eq_nil_of_length_le hle
    rfl

/-- With one worker, a batch comes to what its files come to when they are taken in turn. -/
lemma EndsIn.eq_inTurn (hone : plan.workers = 1) (h : plan.EndsIn paths pool) :
    (pool.effects, pool.failure) = plan.inTurn paths [] := by
  obtain ⟨h, hfinished⟩ := h
  have hkept : plan.outcome pool = plan.inTurn paths [] ∧ pool.running.length ≤ plan.workers := by
    have hinit : plan.outcome { queue := paths } = plan.inTurn paths [] := rfl
    refine h.invariant (P := fun pool => plan.outcome pool = plan.inTurn paths [] ∧
      pool.running.length ≤ plan.workers) ⟨hinit, Nat.zero_le _⟩ ?_
    rintro a b ⟨houtcome, hle⟩ hstep
    exact ⟨(outcome_step hone hle hstep).trans houtcome, running_step hle hstep⟩
  obtain ⟨queue, running, failure, effects⟩ := pool
  obtain ⟨rfl, rfl⟩ : queue = [] ∧ running = [] := hfinished
  rw [← hkept.1]
  cases failure <;> rfl

/-- A queue can be worked off in turn, however many workers there are. -/
lemma reaches_resume (hworkers : 0 < plan.workers) (failure : Option Failure) (queue : List Text)
    (effects : List Effect) :
    Relation.ReflTransGen plan.Step ⟨queue, [], failure, effects⟩
      ⟨[], [], (plan.resume failure queue effects).2, (plan.resume failure queue effects).1⟩ := by
  induction queue generalizing failure effects with
  | nil => cases failure <;> exact .refl
  | cons p queue ih =>
    have hassign : plan.Step ⟨p :: queue, [], failure, effects⟩
        ⟨queue, [⟨p, .assigned⟩], failure, effects⟩ := .assign hworkers
    refine .head hassign ?_
    by_cases hrefuse : failure ≠ none ∨ plan.isCanceled effects = true
    · rw [resume_cons_of_canceled hrefuse]
      refine .head (.refuse [] [] hrefuse) ?_
      exact .head (.finish [] []) (ih _ _)
    · obtain ⟨hnone, hlive⟩ := not_or.mp hrefuse
      obtain rfl : failure = none := Classical.not_not.mp hnone
      have hlive := Bool.eq_false_iff.mpr hlive
      rw [resume_cons_of_live hlive]
      refine .head (.start [] [] hlive) ?_
      refine .head (.compile [] []) ?_
      refine .head (.log [] []) ?_
      refine .head (.deliver [] []) ?_
      exact .head (.finish [] []) (ih _ _)

/-- What files come to when they are taken in turn is possible with any number of workers. -/
lemma endsIn_inTurn (hworkers : 0 < plan.workers) (paths : List Text) :
    plan.EndsIn paths ⟨[], [], (plan.inTurn paths []).2, (plan.inTurn paths []).1⟩ :=
  ⟨reaches_resume hworkers none paths [], rfl, rfl⟩

end Plan

end SheetFormula.Batch
