import SheetFormula.Proofs.Batch.Delivery
import SheetFormula.Proofs.CommandLine.Build

/-!
# How the inputs of a run are handled

A run compiles what comes from standard input, then compiles all files in one batch, and then deals
with the results in order. Each input is handled once: the output of one that compiles is emitted,
and a failure is reported. The run counts the failures, whatever the order in which the tasks of the
batch come to an end.
-/

namespace SheetFormula

/-! ### Handlings -/

/-- How one input went: it did not compile, or its output was emitted and this was answered. -/
inductive Handling where
  | rejected (path : Text) (f : UnitFailure)
  | emitted (path : Text) (o : Output) (answer : Option Failure)

namespace Handling

def path : Handling → Text
  | rejected path _ | emitted path _ _ => path

def result : Handling → CompileResult
  | rejected _ f => .error f
  | emitted _ o _ => .ok o

def failure? : Handling → Option UnitFailure
  | rejected _ f => some f
  | emitted _ _ answer => answer.map .failure

def failed (h : Handling) : Bool := h.failure?.isSome

/-- The input among those that failed. -/
def failedUnits (h : Handling) : Session.FailedUnits := h.failure?.toList.map (h.path, ·)

lemma length_failedUnits (hs : List Handling) :
    (hs.flatMap failedUnits).length = hs.countP failed := by
  induction hs with
  | nil => rfl
  | cons h rest ih =>
    rw [List.flatMap_cons, List.length_append, ih, List.countP_cons, failedUnits, failed]
    cases h.failure? with
    | none => exact Nat.add_comm _ _
    | some f => exact Nat.add_comm _ _

end Handling

namespace Session

variable {job : Job} {emit : Emit} {s s' s₁ s₂ after after' : Session} {inputs : List Text}

/-- Reports why an input failed, if it did. -/
def reportAny (s : Session) (job : Job) : Option UnitFailure → Session
  | none => s
  | some f => s.report job f

/-- One input is handled: the output of one that compiles is emitted, and a failure is reported. -/
inductive Handles (job : Job) (emit : Emit) : Session → Handling → Session → Prop
  | rejected {s : Session} {path : Text} {f : UnitFailure} :
    Handles job emit s (.rejected path f) (s.report job f)
  | emitted {s s' : Session} {path : Text} {o : Output} {answer : Option Failure}
    (hemit : emit s path o = (s', answer)) :
    Handles job emit s (.emitted path o answer) (s'.reportAny job (answer.map .failure))

/-- Where an input is compiled: the session afterwards, and the result. -/
abbrev Source := Session → Text → Session × CompileResult

/-- The result of compiling a text from standard input. -/
def textResult (job : Job) (content : Text) : CompileResult :=
  Except.mapError .diagnostic do
    let program ← Tree.decode content
    Output.ofProgram job.options.mode job.options.members (some program)

/-- What is left on standard input is compiled, and used up. -/
def ofInput (job : Job) : Source := fun s _ => ({ s with input := [] }, textResult job s.input)

/-- Files of a tree are compiled. -/
def ofTree (job : Job) (t : FileTree) : Source := fun s path => (s, t.compileFile job.options path)

/-- Inputs from one source are handled one after the other. -/
inductive HandlesAll (job : Job) (emit : Emit) (source : Source) :
    Session → List Handling → Session → Prop
  | nil (s : Session) : HandlesAll job emit source s [] s
  | cons {s s₁ s₂ s₃ : Session} {h : Handling} {rest : List Handling}
    (hsource : source s h.path = (s₁, h.result)) (hfirst : Handles job emit s₁ h s₂)
    (hrest : HandlesAll job emit source s₂ rest s₃) : HandlesAll job emit source s (h :: rest) s₃

/-- Files have their own results. -/
lemma HandlesAll.result_of_tree {t : FileTree} {hs : List Handling}
    (h : HandlesAll job emit (ofTree job t) s hs after) :
    ∀ x ∈ hs, x.result = t.compileFile job.options x.path := by
  induction h with
  | nil s => simp
  | cons hfrom _ _ ih => exact List.forall_mem_cons.mpr ⟨(Prod.mk.inj hfrom).2.symm, ih⟩

/-! ### Results that are dealt with in order -/

/-- An input with some result is handled, and kept in mind if it fails. -/
lemma settle_handles (t : Tally) (path : Text) (r : CompileResult) :
    ∃ h : Handling, h.path = path ∧ h.result = r ∧
      Handles job emit t.1 h (settle job emit t path r).1 ∧
      (settle job emit t path r).2 = t.2 ++ h.failedUnits := by
  cases r with
  | error f => exact ⟨.rejected path f, rfl, rfl, .rejected, rfl⟩
  | ok o =>
    rcases hemit : emit t.1 path o with ⟨s', failure⟩
    refine ⟨.emitted path o failure, rfl, rfl, ?_⟩
    rw [settle, hemit]
    cases failure with
    | none => exact ⟨.emitted hemit, (List.append_nil _).symm⟩
    | some f => exact ⟨.emitted hemit, rfl⟩

/-- Inputs that are settled in order are handled, and those that fail are counted. -/
lemma foldl_handles {source : Source} {step : Tally → Text → Tally} {paths : List Text}
    (hstep : ∀ p ∈ paths, ∀ t,
      step t p = settle job emit ((source t.1 p).1, t.2) p (source t.1 p).2) (t : Tally) :
    ∃ hs : List Handling, hs.map Handling.path = paths ∧
      HandlesAll job emit source t.1 hs (paths.foldl step t).1 ∧
      (paths.foldl step t).2 = t.2 ++ hs.flatMap Handling.failedUnits := by
  induction paths generalizing t with
  | nil => exact ⟨[], rfl, .nil t.1, (List.append_nil _).symm⟩
  | cons p rest ih =>
    obtain ⟨hp, hrest⟩ := List.forall_mem_cons.mp hstep
    obtain ⟨h, hpath, hresult, hfirst, hfailed⟩ :=
      settle_handles ((source t.1 p).1, t.2) p (source t.1 p).2
    rw [← hp t] at hfirst hfailed
    obtain ⟨hs, hpaths, hall, hfailed'⟩ := ih hrest (step t p)
    refine ⟨h :: hs, ?_, ?_, ?_⟩
    · rw [List.map_cons, hpath, hpaths]
    · refine .cons ?_ hfirst hall
      rw [hpath, hresult]
    · rw [List.foldl_cons, hfailed', hfailed, List.flatMap_cons, List.append_assoc]

lemma settleInput_eq (t : Tally) :
    settleInput job emit t =
      settle job emit ((ofInput job t.1 standardInput).1, t.2) standardInput
        (ofInput job t.1 standardInput).2 := by
  rw [settleInput, compileInput, ofInput, textResult]
  cases (do
    let program ← Tree.decode t.1.input
    Output.ofProgram job.options.mode job.options.members (some program) :
      Except Diagnostic Output) with
  | error d => rfl
  | ok o => rfl

lemma settleFrom_eq {t : FileTree} {results : List (Text × CompileResult)} {p : Text}
    (hlookup : results.lookup p = some (t.compileFile job.options p)) (x : Tally) :
    settleFrom job emit results x p =
      settle job emit ((ofTree job t x.1 p).1, x.2) p (ofTree job t x.1 p).2 := by
  rw [settleFrom, hlookup]
  rfl

/-! ### The ways in which a run may end -/

/-- What comes from standard input is dealt with first. -/
def afterInput (s : Session) (job : Job) (emit : Emit) (inputs : List Text) : Tally :=
  (inputs.filter (· = standardInput)).foldl (fun t _ => settleInput job emit t) (s, [])

/-- The failure of a run in which some of its inputs fail. -/
def verdict (failures inputs : Nat) : Option Failure :=
  if failures = 0 then none
  else
    some (.stated (Text.ofNat failures ++ " of " ++ Text.ofNat inputs ++ " units failed"))

lemma verdict_eq_none {failures inputs : Nat} : verdict failures inputs = none ↔ failures = 0 := by
  rw [verdict]
  split_ifs with hzero <;> simp [hzero]

/-- How the run ends once its batch has ended. -/
def conclude (job : Job) (emit : Emit) (inputs : List Text) (failedInputs : FailedUnits) :
    (Session × List (Text × CompileResult)) × Option Failure → Session × Option Failure
  | ((s, _), some f) => (s, some f)
  | ((s, results), none) =>
    let t := (inputs.filter (· ≠ standardInput)).foldl (settleFrom job emit results) (s, [])
    (t.1, verdict (failedInputs.length + t.2.length) inputs.length)

def filePlan (s : Session) (job : Job) (emit : Emit) (inputs : List Text) (workers : Nat) :
    Batch.Plan (Session × List (Text × CompileResult)) :=
  let first := (s.afterInput job emit inputs).1
  .ofTree (collecting job) first.tree job.options workers (first, [])

/-- A run may end in a way if the tasks of its batch can come to such an end. -/
def MayEnd (s : Session) (job : Job) (emit : Emit) (inputs : List Text) (workers : Nat)
    (outcome : Session × Option Failure) : Prop :=
  ∃ pool, (s.filePlan job emit inputs workers).EndsIn (inputs.filter (· ≠ standardInput)) pool ∧
    outcome = conclude job emit inputs (s.afterInput job emit inputs).2
      ((s.filePlan job emit inputs workers).result pool)

/-- Inputs are compiled as in a run whose batch takes the files in turn. -/
lemma compileInputs_eq (s : Session) (job : Job) (emit : Emit) (inputs : List Text)
    (workers : Nat) :
    let plan := s.filePlan job emit inputs workers
    s.compileInputs job emit inputs = conclude job emit inputs (s.afterInput job emit inputs).2
      (Batch.run plan.around plan.mode plan.compile (inputs.filter (· ≠ standardInput))
        plan.start) := by
  simp only [filePlan, Batch.Plan.ofTree, afterInput, compileInputs, compileUnits, compileFiles]
  generalize Batch.run (collecting job) _ _ _ _ = batch
  rcases batch with ⟨⟨s', results⟩, _ | f⟩
  · simp only [conclude, verdict, ← List.length_append, List.length_eq_zero_iff,
      List.isEmpty_iff]
    split_ifs <;> rfl
  · rfl

/-- The files may be compiled in order. -/
lemma mayEnd_compileInputs (s : Session) (job : Job) (emit : Emit) (inputs : List Text)
    {workers : Nat} (hworkers : 0 < workers) :
    s.MayEnd job emit inputs workers (s.compileInputs job emit inputs) := by
  refine ⟨_, Batch.Plan.endsIn_inTurn hworkers _, ?_⟩
  rw [compileInputs_eq s job emit inputs workers]
  exact congrArg _ (Batch.Plan.run_eq_inTurn _ _ [])

/-! ### What the batch of a run has kept -/

/-- A batch changes the session only by the lines that are logged. -/
lemma state_collecting (t : FileTree) (workers : Nat) (effects : List Batch.Effect) :
    (Batch.Plan.ofTree (collecting job) t job.options workers (s, [])).state effects =
      ((Batch.linesIn effects).foldl (fun s l => s.log job l) s,
        (Batch.deliveriesIn effects).reverse) := by
  -- Every effect changes the state, so the induction is over all states.
  have hall : ∀ x : Session × List (Text × CompileResult),
      effects.foldl (Batch.Plan.ofTree (collecting job) t job.options workers (s, [])).affect x =
        ((Batch.linesIn effects).foldl (fun s l => s.log job l) x.1,
          (Batch.deliveriesIn effects).reverse ++ x.2) := by
    induction effects with
    | nil => exact fun x => rfl
    | cons e rest ih =>
      intro x
      rw [List.foldl_cons, ih]
      cases e with
      | line l => rfl
      | delivery p r =>
        refine Prod.ext rfl ?_
        change _ = ((p, r) :: Batch.deliveriesIn rest).reverse ++ x.2
        rw [List.reverse_cons, List.append_assoc]
        rfl
  rw [Batch.Plan.state, hall]
  exact Prod.ext rfl (List.append_nil _)

/-- The result of a file is found among the results of all, in any order. -/
lemma lookup_of_perm {compile : Text → CompileResult} {files : List Text}
    {results : List (Text × CompileResult)} {p : Text}
    (hperm : results.Perm (files.map fun v => (v, compile v))) (hp : p ∈ files) :
    results.lookup p = some (compile p) := by
  -- A file may occur several times, but all its results are the same.
  have hown : ∀ x ∈ results, (x.1, compile x.1) = x := by
    intro x hx
    obtain ⟨v, -, rfl⟩ := List.mem_map.mp (hperm.mem_iff.mp hx)
    rfl
  have hresults : (results.map Prod.fst).map (fun v => (v, compile v)) = results := by
    rw [List.map_map]
    exact (List.map_congr_left hown).trans (List.map_id results)
  have hmem : p ∈ results.map Prod.fst := by
    have hpair := hperm.mem_iff.mpr (List.mem_map_of_mem hp)
    exact List.mem_map_of_mem hpair
  rw [← hresults]
  exact lookup_results hmem

/-- A batch of files fails only if it is cancelled, and only if the run has been interrupted. -/
lemma failure_collecting {t : FileTree} {workers : Nat} {files : List Text} {pool : Batch.Pool}
    {f : Failure}
    (hends : (Batch.Plan.ofTree (collecting job) t job.options workers (s, [])).EndsIn files pool)
    (hf : pool.failure = some f) : f = .canceled ∧ ∃ out, job.interrupted out = true := by
  refine hends.1.failures (P := fun f => f = .canceled ∧ ∃ out, job.interrupted out = true)
    ?_ ?_ ?_ f ?_
  · rintro f ⟨-, hout⟩
    exact ⟨rfl, hout⟩
  · intro effects hcanceled
    exact ⟨rfl, _, hcanceled⟩
  · intro effects p r f hanswer
    cases hanswer
  · simp [Batch.Pool.failures, hf]

/-! ### Accounts -/

/-- An account of a run that is not cancelled: what has been done with each input. -/
structure Account (job : Job) (emit : Emit) (s : Session) (inputs : List Text)
    (after : Session) where
  fromInput : List Handling
  fromFiles : List Handling
  /-- The session when all from standard input has been handled. -/
  mid : Session
  /-- What has been logged about the files, in some order. -/
  lines : Log
  inputPaths : fromInput.map Handling.path = inputs.filter (· = standardInput)
  filePaths : fromFiles.map Handling.path = inputs.filter (· ≠ standardInput)
  first : HandlesAll job emit (ofInput job) s fromInput mid
  logged : lines.Perm ((inputs.filter (· ≠ standardInput)).map fun p =>
    Batch.progress job.options.mode p (mid.tree.compileFile job.options p))
  second : HandlesAll job emit (ofTree job mid.tree) (lines.foldl (fun s l => s.log job l) mid)
    fromFiles after

namespace Account

def handlings (a : Account job emit s inputs after) : List Handling := a.fromInput ++ a.fromFiles

def failures (a : Account job emit s inputs after) : Nat := a.handlings.countP Handling.failed

lemma failures_eq_zero (a : Account job emit s inputs after) :
    a.failures = 0 ↔ ∀ h ∈ a.handlings, h.failure? = none := by
  rw [failures, List.countP_eq_zero]
  simp [Handling.failed]

lemma path_of_mem_fromInput (a : Account job emit s inputs after) :
    ∀ h ∈ a.fromInput, h.path = standardInput := by
  intro h hh
  have hmem : h.path ∈ inputs.filter (· = standardInput) := a.inputPaths ▸ List.mem_map_of_mem hh
  simpa using (List.mem_filter.mp hmem).2

lemma path_of_mem_fromFiles (a : Account job emit s inputs after) :
    ∀ h ∈ a.fromFiles, h.path ≠ standardInput := by
  intro h hh
  have hmem : h.path ∈ inputs.filter (· ≠ standardInput) := a.filePaths ▸ List.mem_map_of_mem hh
  simpa using (List.mem_filter.mp hmem).2

end Account

lemma afterInput_handles (s : Session) (job : Job) (emit : Emit) (inputs : List Text) :
    ∃ hs : List Handling, hs.map Handling.path = inputs.filter (· = standardInput) ∧
      HandlesAll job emit (ofInput job) s hs (s.afterInput job emit inputs).1 ∧
      (s.afterInput job emit inputs).2 = hs.flatMap Handling.failedUnits := by
  have hstep : ∀ p ∈ inputs.filter (· = standardInput), ∀ t : Tally, settleInput job emit t =
      settle job emit ((ofInput job t.1 p).1, t.2) p (ofInput job t.1 p).2 := by
    intro p hp t
    obtain rfl : p = standardInput := by simpa using (List.mem_filter.mp hp).2
    exact settleInput_eq t
  exact foldl_handles hstep (s, [])

lemma files_handles {t : FileTree} {results : List (Text × CompileResult)} {files : List Text}
    (hlookup : ∀ p ∈ files, results.lookup p = some (t.compileFile job.options p)) (s : Session)
    (emit : Emit) :
    ∃ hs : List Handling, hs.map Handling.path = files ∧
      HandlesAll job emit (ofTree job t) s hs
        (files.foldl (settleFrom job emit results) (s, [])).1 ∧
      (files.foldl (settleFrom job emit results) (s, [])).2 = hs.flatMap Handling.failedUnits :=
  foldl_handles (fun p hp => settleFrom_eq (hlookup p hp)) (s, [])

/-- A run whose batch does not fail has an account, and ends with the number of failed inputs. -/
lemma exists_account {workers : Nat} {pool : Batch.Pool}
    (hends : (s.filePlan job emit inputs workers).EndsIn (inputs.filter (· ≠ standardInput)) pool)
    (hnone : pool.failure = none) :
    let outcome := conclude job emit inputs (s.afterInput job emit inputs).2
      ((s.filePlan job emit inputs workers).result pool)
    ∃ a : Account job emit s inputs outcome.1,
      outcome.2 = verdict a.failures inputs.length := by
  obtain ⟨hlines, hdeliveries⟩ := hends.delivered hnone
  have hresult : (s.filePlan job emit inputs workers).result pool =
      ((pool.lines.foldl (fun s l => s.log job l) (s.afterInput job emit inputs).1,
        pool.deliveries.reverse), none) :=
    Prod.ext (state_collecting _ workers pool.effects) hnone
  obtain ⟨fromInput, hinputPaths, hfirst, hfailedInputs⟩ := s.afterInput_handles job emit inputs
  obtain ⟨fromFiles, hfilePaths, hsecond, hfailedFiles⟩ := files_handles
    (fun p hp => lookup_of_perm ((List.reverse_perm _).trans hdeliveries) hp)
    (pool.lines.foldl (fun s l => s.log job l) (s.afterInput job emit inputs).1) emit
  rw [hresult, conclude, hfailedInputs, hfailedFiles, Handling.length_failedUnits,
    Handling.length_failedUnits, ← List.countP_append]
  exact ⟨⟨fromInput, fromFiles, _, pool.lines, hinputPaths, hfilePaths, hfirst, hlines, hsecond⟩,
    rfl⟩

/-- Whatever the order of its tasks, a run is cancelled or has an account. -/
lemma account_of_mayEnd {workers : Nat} {failure : Option Failure}
    (h : s.MayEnd job emit inputs workers (after, failure)) :
    (failure = some .canceled ∧ ∃ out, job.interrupted out = true) ∨
      ∃ a : Account job emit s inputs after, failure = verdict a.failures inputs.length := by
  obtain ⟨pool, hends, houtcome⟩ := h
  cases hfailure : pool.failure with
  | none =>
    right
    have haccount := exists_account hends hfailure
    rw [← houtcome] at haccount
    exact haccount
  | some f =>
    left
    obtain ⟨rfl, hout⟩ := failure_collecting hends hfailure
    have hresult : (s.filePlan job emit inputs workers).result pool =
        ((s.filePlan job emit inputs workers).state pool.effects, some .canceled) :=
      Prod.ext rfl hfailure
    rw [hresult] at houtcome
    exact ⟨(Prod.mk.inj houtcome).2, hout⟩

/-! ### Sessions that differ in what has been printed -/

/-- Sessions that differ at most in what has been printed. -/
structure Alike (s s' : Session) : Prop where
  tree : s.tree = s'.tree
  input : s.input = s'.input
  store : s.store = s'.store

namespace Alike

lemma report (h : Alike s s') (job : Job) (f : UnitFailure) :
    Alike (s.report job f) (s'.report job f) := by
  cases f <;> exact ⟨h.tree, h.input, h.store⟩

lemma reportAny (h : Alike s s') (job : Job) (failure : Option UnitFailure) :
    Alike (s.reportAny job failure) (s'.reportAny job failure) := by
  cases failure with
  | none => exact h
  | some f => exact h.report job f

lemma foldl_log (h : Alike s s') (job : Job) (lines lines' : Log) :
    Alike (lines.foldl (fun s l => s.log job l) s) (lines'.foldl (fun s l => s.log job l) s') := by
  have hlog : ∀ (lines : Log) (s : Session), Alike (lines.foldl (fun s l => s.log job l) s) s := by
    intro lines
    induction lines with
    | nil => exact fun s => ⟨rfl, rfl, rfl⟩
    | cons l rest ih =>
      intro s
      obtain ⟨htree, hinput, hstore⟩ := ih (s.log job l)
      exact ⟨htree, hinput, hstore⟩
  obtain ⟨htree, hinput, hstore⟩ := hlog lines s
  obtain ⟨htree', hinput', hstore'⟩ := hlog lines' s'
  exact ⟨htree.trans (h.tree.trans htree'.symm), hinput.trans (h.input.trans hinput'.symm),
    hstore.trans (h.store.trans hstore'.symm)⟩

end Alike

/-- Nothing depends on what has been printed: neither the answer nor what else is changed. -/
def Blind (emit : Emit) : Prop :=
  ∀ s s' path o, Alike s s' →
    Alike (emit s path o).1 (emit s' path o).1 ∧ (emit s path o).2 = (emit s' path o).2

lemma blind_emitVerdict : Blind emitVerdict :=
  fun _ _ _ _ h => ⟨⟨h.tree, h.input, h.store⟩, rfl⟩

lemma Alike.saveManifest (h : Alike s s')
    (hconstant : ∀ out out', job.interrupted out = job.interrupted out') (path : Text)
    (manifest : Entries) :
    Alike (s.saveManifest job path manifest).1 (s'.saveManifest job path manifest).1 ∧
      (s.saveManifest job path manifest).2 = (s'.saveManifest job path manifest).2 := by
  have hcanceled : s.isCanceled job = s'.isCanceled job := hconstant _ _
  rw [Session.saveManifest, Session.saveManifest, h.store, h.tree, hcanceled]
  cases s'.store with
  | none => exact ⟨h, rfl⟩
  | some store =>
    simp only
    rcases store.save s'.tree (s'.isCanceled job) job.now path manifest with
      ⟨⟨store', tree⟩, _ | f⟩
    · exact ⟨⟨rfl, h.input, rfl⟩, rfl⟩
    · exact ⟨⟨rfl, h.input, rfl⟩, rfl⟩

lemma Alike.writeOutput (h : Alike s s')
    (hconstant : ∀ out out', job.interrupted out = job.interrupted out') (path : Text)
    (o : Output) :
    Alike (s.writeOutput job path o).1 (s'.writeOutput job path o).1 ∧
      (s.writeOutput job path o).2 = (s'.writeOutput job path o).2 := by
  rw [Session.writeOutput, Session.writeOutput, h.tree]
  generalize artifactPath job.settings.outDir path o.mode.suffix = artifact
  cases s'.tree.makeDirectory (Path.dir artifact) with
  | error x => exact ⟨⟨rfl, h.input, h.store⟩, rfl⟩
  | ok made =>
    simp only
    cases made.write artifact o.artifact with
    | error e => exact ⟨⟨rfl, h.input, h.store⟩, rfl⟩
    | ok written =>
      apply saveManifest _ hconstant
      exact ⟨rfl, h.input, h.store⟩

/-- Emitting output does not look at what has been printed, unless to see whether the run has been
interrupted. -/
lemma blind_emitOutput (hconstant : ∀ out out', job.interrupted out = job.interrupted out') :
    Blind (emitOutput job) := by
  intro s s' path o h
  rw [emitOutput, emitOutput]
  split_ifs
  · exact ⟨⟨h.tree, h.input, h.store⟩, rfl⟩
  · exact h.writeOutput hconstant path o

/-- Inputs that are handled in sessions alike are handled in the same way. -/
lemma Handles.unique {x x' : Handling} (hblind : Blind emit) (h : Handles job emit s x after)
    (h' : Handles job emit s' x' after') (halike : Alike s s') (hpath : x.path = x'.path)
    (hresult : x.result = x'.result) : x = x' ∧ Alike after after' := by
  cases h with
  | rejected =>
    cases h' with
    | rejected =>
      cases hpath
      cases hresult
      exact ⟨rfl, halike.report job _⟩
    | emitted _ => cases hresult
  | @emitted mid path o answer hemit =>
    cases h' with
    | rejected => cases hresult
    | emitted hemit' =>
      cases hpath
      cases hresult
      obtain ⟨hafter, hanswer⟩ := hblind s s' path o halike
      rw [hemit, hemit'] at hafter hanswer
      obtain rfl := hanswer
      exact ⟨rfl, hafter.reportAny job _⟩

lemma HandlesAll.unique {source : Source} {hs hs' : List Handling} (hblind : Blind emit)
    (hsource : ∀ s s' path, Alike s s' →
      Alike (source s path).1 (source s' path).1 ∧ (source s path).2 = (source s' path).2)
    (h : HandlesAll job emit source s hs after) (h' : HandlesAll job emit source s' hs' after')
    (halike : Alike s s') (hpaths : hs.map Handling.path = hs'.map Handling.path) :
    hs = hs' ∧ Alike after after' := by
  induction h generalizing s' hs' with
  | nil s =>
    cases h' with
    | nil => exact ⟨rfl, halike⟩
    | cons _ _ _ => cases hpaths
  | cons hsource₁ hfirst _ ih =>
    cases h' with
    | nil => cases hpaths
    | cons hsource₁' hfirst' hrest' =>
      obtain ⟨hpath, hrest⟩ := List.cons.inj hpaths
      obtain ⟨hmid, hresult⟩ := hsource _ _ _ halike
      rw [hsource₁, hpath, hsource₁'] at hmid hresult
      obtain ⟨rfl, halike⟩ := hfirst.unique hblind hfirst' hmid hpath hresult
      obtain ⟨rfl, hafter⟩ := ih hrest' halike hrest
      exact ⟨rfl, hafter⟩

/-- All accounts of runs of one kind tell the same. -/
lemma Account.unique (hblind : Blind emit) (a : Account job emit s inputs after)
    (a' : Account job emit s inputs after') :
    a.handlings = a'.handlings ∧ Alike after after' := by
  have hinput : ∀ s s' path, Alike s s' → Alike (ofInput job s path).1 (ofInput job s' path).1 ∧
      (ofInput job s path).2 = (ofInput job s' path).2 := by
    intro s s' path h
    refine ⟨⟨h.tree, rfl, h.store⟩, ?_⟩
    rw [ofInput, ofInput, h.input]
  obtain ⟨hfirst, hmid⟩ := a.first.unique hblind hinput a'.first ⟨rfl, rfl, rfl⟩
    (a.inputPaths.trans a'.inputPaths.symm)
  have hsecond' := a'.second
  rw [← hmid.tree] at hsecond'
  obtain ⟨hsecond, hafter⟩ := a.second.unique hblind (fun _ _ _ h => ⟨h, rfl⟩) hsecond'
    (hmid.foldl_log job a.lines a'.lines) (a.filePaths.trans a'.filePaths.symm)
  rw [handlings, handlings, hfirst, hsecond]
  exact ⟨rfl, hafter⟩

end Session

open Session

/-- Inputs are handled once each, whichever of them fail. A run comes to an end with any number of
workers, and one way in which it may end is the one in which files are compiled in order. However it
ends, it has been cancelled after an interruption, or each input has been handled: those from
standard input, with what was left there, and then the files in order, each with its own result. The
output of an input that compiles has been emitted once, and a failure reported once. The run fails
if any input does, and gives the number of those that do. All runs handle inputs in the same way if
emitting does not depend on what has been printed, and neither a verdict nor output does, as long as
no interruption comes in between. -/
theorem inputs_handled_once (s : Session) (job : Job) (emit : Emit) (inputs : List Text) :
    (∀ workers, 0 < workers →
      (s.filePlan job emit inputs workers).Terminates (inputs.filter (· ≠ standardInput)) ∧
        s.MayEnd job emit inputs workers (s.compileInputs job emit inputs)) ∧
    (∀ workers after failure, s.MayEnd job emit inputs workers (after, failure) →
      (failure = some .canceled ∧ ∃ out, job.interrupted out = true) ∨
      ∃ a : Account job emit s inputs after,
        (failure = none ↔ ∀ h ∈ a.handlings, h.failure? = none) ∧
        (failure ≠ none → failure = some (.stated (Text.ofNat (a.handlings.countP Handling.failed)
          ++ " of " ++ Text.ofNat inputs.length ++ " units failed")))) ∧
    (Blind emit → ∀ after after' (a : Account job emit s inputs after)
      (a' : Account job emit s inputs after'),
        a.handlings = a'.handlings ∧ Alike after after') ∧
    Blind emitVerdict ∧
    ((∀ out out', job.interrupted out = job.interrupted out') → Blind (emitOutput job)) := by
  refine ⟨?_, ?_, ?_, blind_emitVerdict, blind_emitOutput⟩
  · intro workers hworkers
    exact ⟨Batch.Plan.terminates hworkers _, s.mayEnd_compileInputs job emit inputs hworkers⟩
  · intro workers after failure hend
    rcases account_of_mayEnd hend with hcanceled | ⟨a, rfl⟩
    · exact .inl hcanceled
    · refine .inr ⟨a, ?_, ?_⟩
      · rw [verdict_eq_none, a.failures_eq_zero]
      · intro hfails
        exact if_neg fun hzero => hfails (verdict_eq_none.mpr hzero)
  · intro hblind after after' a a'
    exact a.unique hblind a'

/-- The program that exports the number 2. -/
def twoProgram : Text :=
  "\x7b\"type\":\"Program\",\"body\":[\x7b\"type\":\"ExportDefaultDeclaration\",\"declaration\":"
    ++ "\x7b\"type\":\"Literal\",\"raw\":\"2\"\x7d\x7d]\x7d"

/-- One program on standard input, and two files of which the second is broken. -/
def mixedSession : Session := { tree := staleTree, input := twoProgram }

/-- Both files, the first of them twice, and standard input, also twice. -/
def mixedInputs : List Text := ["a.json", "-", "b.json", "a.json", "-"]

theorem mixed_inputs_handled :
    ∃ after,
      mixedSession.MayEnd plainJob (emitOutput plainJob) mixedInputs 2
        (after, some (.stated "2 of 5 units failed")) ∧
      ∃ a : Account plainJob (emitOutput plainJob) mixedSession mixedInputs after,
        (∃ h ∈ a.handlings, h.failure? ≠ none) ∧
        ∀ after' (a' : Account plainJob (emitOutput plainJob) mixedSession mixedInputs after'),
          a'.handlings = a.handlings := by
  obtain ⟨hends, haccount, hsame, -, hblind⟩ :=
    inputs_handled_once mixedSession plainJob (emitOutput plainJob) mixedInputs
  obtain ⟨-, hend⟩ := hends 2 (by decide)
  have hfailure : (mixedSession.compileInputs plainJob (emitOutput plainJob) mixedInputs).2 =
      some (.stated "2 of 5 units failed") := by
    decide +kernel
  rcases hrun : mixedSession.compileInputs plainJob (emitOutput plainJob) mixedInputs with
    ⟨after, failure⟩
  rw [hrun] at hend hfailure
  obtain rfl : failure = some (.stated "2 of 5 units failed") := hfailure
  refine ⟨after, hend, ?_⟩
  rcases haccount 2 after _ hend with ⟨hcanceled, -⟩ | ⟨a, hnone, -⟩
  · cases hcanceled
  · refine ⟨a, ?_, fun after' a' => ?_⟩
    · simpa using hnone
    · exact (hsame (hblind fun _ _ => rfl) after' after a' a).1

end SheetFormula
