import SheetFormula.Proofs.Batch.Pool

/-!
# What a batch delivers

Whatever the number of workers and the order of their steps, a batch that nobody stops delivers each
file once, with its own result. A batch that is cancelled before it starts delivers nothing. With
one worker the files are delivered in turn, up to the first result that is answered by a failure.
-/

namespace SheetFormula.Batch

/-- The batch that compiles files of a tree. -/
def Plan.ofTree {σ : Type} (around : Surroundings σ) (t : FileTree) (options : CompileOptions)
    (workers : Nat) (s : σ) : Plan σ :=
  ⟨around, options.mode, t.compileFile options, workers, s⟩

/-- Results are taken up to some number, and the last of these is answered by a failure. -/
structure Plan.StopsAt {σ : Type} (plan : Plan σ) (n : Nat) (f : Failure) : Prop where
  before : ∀ effects p r, (deliveriesIn effects).length + 1 < n → plan.answer effects p r = none
  last : ∀ effects p r, (deliveriesIn effects).length + 1 = n → plan.answer effects p r = some f

namespace Plan

variable {σ : Type} {plan : Plan σ}

lemma linesIn_delivered (p : Text) (effects : List Effect) :
    linesIn (plan.delivered p effects) = linesIn effects ++ [plan.lineOf p] := by
  rw [delivered, logged, linesIn, List.append_assoc, List.filterMap_append]
  rfl

lemma deliveriesIn_delivered (p : Text) (effects : List Effect) :
    deliveriesIn (plan.delivered p effects) = deliveriesIn effects ++ [plan.own p] := by
  rw [delivered, logged, deliveriesIn, List.append_assoc, List.filterMap_append]
  rfl

lemma deliveriesIn_logged (p : Text) (effects : List Effect) :
    deliveriesIn (plan.logged p effects) = deliveriesIn effects := by
  rw [logged, deliveriesIn, List.filterMap_append]
  exact List.append_nil _

/-- Files that are taken in turn are delivered up to the one where the batch is stopped. -/
lemma inTurn_of_stopsAt {n : Nat} {f : Failure}
    (hlive : plan.Uncanceled) (hstops : plan.StopsAt n f)
    {paths : List Text} {effects : List Effect} {k : Nat}
    (hk : (deliveriesIn effects).length + k = n) (hpos : 0 < k) (hle : k ≤ paths.length) :
    linesIn (plan.inTurn paths effects).1 = linesIn effects ++ (paths.take k).map plan.lineOf ∧
      deliveriesIn (plan.inTurn paths effects).1 =
        deliveriesIn effects ++ (paths.take k).map plan.own ∧
      (plan.inTurn paths effects).2 = some f := by
  induction paths generalizing effects k with
  | nil =>
    rw [List.length_nil] at hle
    omega
  | cons p rest ih =>
    rw [inTurn, if_neg (by simp [hlive effects])]
    obtain ⟨k, rfl⟩ : ∃ m, k = m + 1 := ⟨k - 1, by omega⟩
    rw [List.length_cons] at hle
    rw [List.take_succ_cons, List.map_cons, List.map_cons]
    by_cases hlast : k = 0
    · subst hlast
      have hanswer := hstops.last (plan.logged p effects) p (plan.compile p)
        (by rw [deliveriesIn_logged]; exact hk)
      rw [hanswer]
      exact ⟨linesIn_delivered p effects, deliveriesIn_delivered p effects, rfl⟩
    · have hanswer := hstops.before (plan.logged p effects) p (plan.compile p)
        (by rw [deliveriesIn_logged]; omega)
      have hcount : (deliveriesIn (plan.delivered p effects)).length + k = n := by
        rw [deliveriesIn_delivered, List.length_append, List.length_singleton]
        omega
      obtain ⟨hlines, hdeliveries, hfailure⟩ := ih hcount (by omega) (by omega)
      rw [hanswer]
      refine ⟨?_, ?_, hfailure⟩
      · rw [hlines, linesIn_delivered, List.append_assoc, List.singleton_append]
      · rw [hdeliveries, deliveriesIn_delivered, List.append_assoc, List.singleton_append]

end Plan

/-- A batch delivers each file once under any schedule. Let tasks take their steps in any order, at
most as many at a time as there are workers. Then the steps come to an end. One outcome that is
possible with any number of workers is that of a run, and with one worker it is the only one.
If nobody cancels or stops the batch, each file is delivered once with its own result, one line is
logged for each, and the batch does not fail. If it is cancelled before it starts, nothing is
delivered or logged, and it ends in cancellation. With one worker and a failure in answer to the
n-th result, the first n files are delivered and logged in turn, and the batch ends with this
failure. -/
theorem batch_delivers_under_any_schedule {σ : Type} (around : Surroundings σ) (t : FileTree)
    (options : CompileOptions) (s : σ) (paths : List Text) {workers : Nat}
    (hworkers : 0 < workers) :
    let plan := Plan.ofTree around t options workers s
    let own := fun p => (p, t.compileFile options p)
    let line := fun p => progress options.mode p (t.compileFile options p)
    let inOrder := run around options.mode (t.compileFile options) paths s
    plan.Terminates paths ∧
    (∃ pool, plan.EndsIn paths pool ∧ plan.result pool = inOrder) ∧
    (workers = 1 → ∀ pool, plan.EndsIn paths pool → plan.result pool = inOrder) ∧
    (plan.Uncanceled → plan.Unstopped → ∀ pool, plan.EndsIn paths pool →
      pool.deliveries.Perm (paths.map own) ∧ pool.lines.Perm (paths.map line) ∧
        pool.failure = none) ∧
    (around.isCanceled s = true → paths ≠ [] → ∀ pool, plan.Reaches paths pool →
      pool.deliveries = [] ∧ pool.lines = [] ∧
        (pool.Finished → pool.failure = some .canceled)) ∧
    (∀ n f, workers = 1 → plan.Uncanceled → plan.StopsAt n f → 0 < n → n ≤ paths.length →
      ∀ pool, plan.EndsIn paths pool → pool.deliveries = (paths.take n).map own ∧
        pool.lines = (paths.take n).map line ∧ pool.failure = some f) := by
  intro plan own line inOrder
  have hrun : inOrder = (plan.state (plan.inTurn paths []).1, (plan.inTurn paths []).2) :=
    Plan.run_eq_inTurn plan paths []
  refine ⟨Plan.terminates hworkers paths, ?_, ?_, ?_, ?_, ?_⟩
  · exact ⟨_, Plan.endsIn_inTurn hworkers paths, hrun.symm⟩
  · intro hone pool hpool
    rw [hrun, ← hpool.eq_inTurn hone]
    rfl
  · intro hlive hgoes pool hpool
    have hfailure := hpool.1.failure_eq_none hlive hgoes
    obtain ⟨hlines, hdeliveries⟩ := hpool.delivered hfailure
    exact ⟨hdeliveries, hlines, hfailure⟩
  · intro hcanceled hsome pool hpool
    have hstart : plan.isCanceled [] = true := hcanceled
    obtain ⟨heffects, hfailure⟩ := Plan.Reaches.dropped hstart hsome hpool
    refine ⟨?_, ?_, hfailure⟩
    · rw [Pool.deliveries, heffects]
      rfl
    · rw [Pool.lines, heffects]
      rfl
  · intro n f hone hlive hstops hpos hle pool hpool
    have hcount : (deliveriesIn []).length + n = n := Nat.zero_add n
    obtain ⟨hlines, hdeliveries, hfailure⟩ :=
      Plan.inTurn_of_stopsAt hlive hstops hcount hpos hle
    rw [← hpool.eq_inTurn hone] at hlines hdeliveries hfailure
    exact ⟨hdeliveries, hlines, hfailure⟩

/-- Surroundings that count results, and answer one of them by a failure. -/
def counting (last : Nat) : Surroundings Nat where
  isCanceled _ := false
  log n _ := n
  deliver n _ _ := (n + 1, if n + 1 = last then some (.stated "stopped") else none)

lemma Plan.state_counting {last workers : Nat} (t : FileTree) (options : CompileOptions)
    (effects : List Effect) :
    (ofTree (counting last) t options workers 0).state effects =
      (deliveriesIn effects).length := by
  have hcount : ∀ n, effects.foldl (ofTree (counting last) t options workers 0).affect n =
      n + (deliveriesIn effects).length := by
    induction effects with
    | nil => exact fun n => rfl
    | cons e rest ih =>
      intro n
      rw [List.foldl_cons, ih]
      cases e with
      | line l => rfl
      | delivery p r =>
        change n + 1 + _ = n + ((deliveriesIn rest).length + 1)
        omega
  exact (hcount 0).trans (Nat.zero_add _)

/-- A program that exports a number, and a file that is no program. -/
def pairTree : FileTree :=
  { entries := [(["a.json"], .file ("\x7b\"type\":\"Program\",\"body\":"
        ++ "[\x7b\"type\":\"ExportDefaultDeclaration\",\"declaration\":"
        ++ "\x7b\"type\":\"Literal\",\"raw\":\"1\"\x7d\x7d]\x7d")),
      (["b.json"], .file "\x7b\x7d")] }

/-- The two files, the first of them twice. -/
def repeatedPaths : List Text := ["a.json", "b.json", "a.json"]

theorem repeated_files_delivered :
    (∃ pool, (Plan.ofTree (counting 0) pairTree {} 2 0).EndsIn repeatedPaths pool ∧
      pool.deliveries.Perm (repeatedPaths.map fun p => (p, pairTree.compileFile {} p)) ∧
        pool.failure = none) ∧
    ∃ pool, (Plan.ofTree (counting 2) pairTree {} 1 0).EndsIn repeatedPaths pool ∧
      pool.deliveries = ((repeatedPaths.take 2).map fun p => (p, pairTree.compileFile {} p)) ∧
        pool.failure = some (.stated "stopped") := by
  constructor
  · obtain ⟨-, ⟨pool, hpool, -⟩, -, hall, -⟩ :=
      batch_delivers_under_any_schedule (counting 0) pairTree {} 0 repeatedPaths
        (show 0 < 2 by decide)
    obtain ⟨hdeliveries, -, hfailure⟩ := hall (fun _ => rfl) (fun _ _ _ => rfl) pool hpool
    exact ⟨pool, hpool, hdeliveries, hfailure⟩
  · have hanswer : ∀ effects p r, (Plan.ofTree (counting 2) pairTree {} 1 0).answer effects p r =
        if (deliveriesIn effects).length + 1 = 2 then some (.stated "stopped") else none := by
      intro effects p r
      rw [← Plan.state_counting pairTree {} effects]
      rfl
    have hstops : (Plan.ofTree (counting 2) pairTree {} 1 0).StopsAt 2 (.stated "stopped") := by
      constructor
      · intro effects p r hbefore
        rw [hanswer, if_neg (by omega)]
      · intro effects p r hlast
        rw [hanswer, if_pos hlast]
    obtain ⟨-, ⟨pool, hpool, -⟩, -, -, -, hstopped⟩ :=
      batch_delivers_under_any_schedule (counting 2) pairTree {} 0 repeatedPaths
        (show 0 < 1 by decide)
    obtain ⟨hdeliveries, -, hfailure⟩ :=
      hstopped 2 _ rfl (fun _ => rfl) hstops (by decide) (by decide) pool hpool
    exact ⟨pool, hpool, hdeliveries, hfailure⟩

end SheetFormula.Batch
