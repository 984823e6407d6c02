import SheetFormula.CommandLine.Run
import SheetFormula.Proofs.CommandLine.Handling

/-!
# The order of reports

A run that prints output, or that checks its inputs, says of each of them what has become of it. The
files are told about in their order, however many workers compile them. Standard input comes before
all files, wherever it stands among the inputs.
-/

namespace SheetFormula

open Session

def inputsFirst (inputs : List Text) : List Text :=
  inputs.filter (· = standardInput) ++ inputs.filter (· ≠ standardInput)

/-- The order of inputs stays if no file stands before standard input. -/
lemma inputsFirst_eq_self {inputs : List Text}
    (h : ∀ before after, inputs = before ++ standardInput :: after → before = []) :
    inputsFirst inputs = inputs := by
  cases inputs with
  | nil => rfl
  | cons u rest =>
    have hrest : ∀ v ∈ rest, v ≠ standardInput := by
      rintro v hv rfl
      obtain ⟨before, after, rfl⟩ := List.append_of_mem hv
      exact List.cons_ne_nil u before (h (u :: before) after rfl)
    have hnone : rest.filter (· = standardInput) = [] := by
      simpa [List.filter_eq_nil_iff] using hrest
    have hall : rest.filter (· ≠ standardInput) = rest := by
      simpa [List.filter_eq_self] using hrest
    rw [inputsFirst, List.filter_cons, List.filter_cons, hnone, hall]
    by_cases hu : u = standardInput
    · simp [hu]
    · simp [hu]

/-! ### What is said about an input -/

/-- The report on a failed unit. -/
def UnitFailure.complaint (json : Bool) : UnitFailure → Text
  | .diagnostic d => (if json then d.json else d.pretty) ++ "\n"
  | .failure f => "error: " ++ f.message ++ "\n"

/-- What is printed about a unit with some result: something if it compiles. -/
def printedFor (shown : Text → Output → Text) (path : Text) : CompileResult → Text
  | .ok o => shown path o
  | .error _ => []

/-- What is reported about a unit with some result: something if it fails. -/
def reportedFor (json : Bool) : CompileResult → Text
  | .ok _ => []
  | .error f => f.complaint json

namespace Session

variable {job : Job} {emit : Emit} {shown : Text → Output → Text} {s after : Session}
  {inputs : List Text} {source : Source} {x : Handling} {hs : List Handling}

/-- The result of an input, if standard input is not used twice. -/
def resultOf (s : Session) (job : Job) (u : Text) : CompileResult :=
  if u = standardInput then textResult job s.input else s.tree.compileFile job.options u

/-- Emitting output comes to printing a text about it. -/
def Prints (emit : Emit) (shown : Text → Output → Text) : Prop :=
  ∀ s path o, emit s path o = (s.print (shown path o), none)

lemma report_eq (s : Session) (job : Job) (f : UnitFailure) :
    s.report job f = s.warn (f.complaint job.json) := by
  cases f <;> rfl

/-- Handling an input adds to what has been printed and reported. -/
lemma Handles.console (hprints : Prints emit shown) (h : Handles job emit s x after) :
    after.tree = s.tree ∧
      after.console.out = s.console.out ++ printedFor shown x.path x.result ∧
      after.console.err = s.console.err ++ reportedFor job.json x.result := by
  cases h with
  | @rejected path f =>
    rw [report_eq]
    exact ⟨rfl, (List.append_nil _).symm, rfl⟩
  | emitted hemit =>
    rw [hprints] at hemit
    cases hemit
    exact ⟨rfl, rfl, (List.append_nil _).symm⟩

lemma HandlesAll.console (hprints : Prints emit shown)
    (hsource : ∀ s p, (source s p).1.tree = s.tree ∧ (source s p).1.console = s.console)
    (h : HandlesAll job emit source s hs after) :
    after.tree = s.tree ∧
      after.console.out =
        s.console.out ++ hs.flatMap (fun x => printedFor shown x.path x.result) ∧
      after.console.err = s.console.err ++ hs.flatMap (fun x => reportedFor job.json x.result) := by
  induction h with
  | nil s => exact ⟨rfl, (List.append_nil _).symm, (List.append_nil _).symm⟩
  | @cons s s₁ s₂ s₃ x rest hfrom hfirst _ ih =>
    obtain ⟨htree₁, hconsole₁⟩ := hsource s x.path
    rw [hfrom] at htree₁ hconsole₁
    obtain ⟨htree₂, hout₂, herr₂⟩ := hfirst.console hprints
    obtain ⟨htree₃, hout₃, herr₃⟩ := ih
    refine ⟨htree₃.trans (htree₂.trans htree₁), ?_, ?_⟩
    · rw [hout₃, hout₂, hconsole₁, List.flatMap_cons, List.append_assoc]
    · rw [herr₃, herr₂, hconsole₁, List.flatMap_cons, List.append_assoc]

/-- The first to use standard input gets all that is there. -/
lemma HandlesAll.result_of_input (h : HandlesAll job emit (ofInput job) s hs after)
    (hone : hs.length ≤ 1) : ∀ x ∈ hs, x.result = textResult job s.input := by
  cases h with
  | nil => simp
  | @cons _ _ _ _ _ rest hfrom _ _ =>
    rw [List.length_cons] at hone
    obtain rfl : rest = [] := List.length_eq_zero_iff.mp (by omega)
    exact List.forall_mem_singleton.mpr (Prod.mk.inj hfrom).2.symm

/-- Lines of little weight are not shown. -/
lemma foldl_log_debug (hlevel : job.threshold.admits .debug = false) {lines : Log}
    (hlines : ∀ l ∈ lines, l.severity = .debug) (s : Session) :
    lines.foldl (fun s l => s.log job l) s = s := by
  induction lines with
  | nil => rfl
  | cons l rest ih =>
    obtain ⟨hl, hrest⟩ := List.forall_mem_cons.mp hlines
    have hlog : s.log job l = s := by
      rw [log, Console.log, hl, hlevel]
      rfl
    rw [List.foldl_cons, hlog]
    exact ih hrest

lemma severity_progress (mode : OutputMode) (path : Text) (r : CompileResult) :
    (Batch.progress mode path r).severity = .debug := by
  cases r <;> rfl

lemma Account.severity_lines (a : Account job emit s inputs after) :
    ∀ l ∈ a.lines, l.severity = .debug := by
  intro l hl
  obtain ⟨p, -, rfl⟩ := List.mem_map.mp (a.logged.mem_iff.mp hl)
  exact severity_progress _ _ _

/-- Each input has the result that is its own, if standard input is not used twice. -/
lemma Account.result_of_mem (a : Account job emit s inputs after) (htree : a.mid.tree = s.tree)
    (honce : inputs.count standardInput ≤ 1) :
    ∀ x ∈ a.handlings, x.result = s.resultOf job x.path := by
  have hone : a.fromInput.length ≤ 1 := by
    rw [← List.length_map Handling.path, a.inputPaths, ← List.countP_eq_length_filter]
    simpa only [List.count, beq_eq_decide] using honce
  refine List.forall_mem_append.mpr ⟨fun x hx => ?_, fun x hx => ?_⟩
  · rw [resultOf, if_pos (a.path_of_mem_fromInput x hx)]
    exact a.first.result_of_input hone x hx
  · rw [resultOf, if_neg (a.path_of_mem_fromFiles x hx), ← htree]
    exact a.second.result_of_tree x hx

lemma Account.paths (a : Account job emit s inputs after) :
    a.handlings.map Handling.path = inputsFirst inputs := by
  rw [Account.handlings, List.map_append, a.inputPaths, a.filePaths, inputsFirst]

/-- A run that prints says of each input in turn what has become of it. -/
lemma Account.console (a : Account job emit s inputs after) (hprints : Prints emit shown)
    (hlevel : job.threshold.admits .debug = false) (honce : inputs.count standardInput ≤ 1) :
    after.console.out = s.console.out ++
        (inputsFirst inputs).flatMap (fun u => printedFor shown u (s.resultOf job u)) ∧
      after.console.err = s.console.err ++
        (inputsFirst inputs).flatMap (fun u => reportedFor job.json (s.resultOf job u)) := by
  obtain ⟨htree, hout, herr⟩ := a.first.console hprints (fun _ _ => ⟨rfl, rfl⟩)
  have hsecond := a.second
  rw [foldl_log_debug hlevel a.severity_lines] at hsecond
  obtain ⟨-, hout', herr'⟩ := hsecond.console hprints (fun _ _ => ⟨rfl, rfl⟩)
  have hresult := a.result_of_mem htree honce
  rw [← a.paths, List.flatMap_map, List.flatMap_map]
  constructor
  · rw [hout', hout, List.append_assoc, ← List.flatMap_append]
    exact congrArg _ (List.flatMap_congr fun x hx => by rw [hresult x hx])
  · rw [herr', herr, List.append_assoc, ← List.flatMap_append]
    exact congrArg _ (List.flatMap_congr fun x hx => by rw [hresult x hx])

/-- However the tasks of a run are ordered that is not interrupted, it says the same. -/
lemma console_of_mayEnd {workers : Nat} {failure : Option Failure} (hprints : Prints emit shown)
    (hlevel : job.threshold.admits .debug = false) (honce : inputs.count standardInput ≤ 1)
    (hlive : ∀ out, job.interrupted out = false)
    (hend : s.MayEnd job emit inputs workers (after, failure)) :
    after.console =
      ⟨s.console.out ++
          (inputsFirst inputs).flatMap (fun u => printedFor shown u (s.resultOf job u)),
        s.console.err ++
          (inputsFirst inputs).flatMap (fun u => reportedFor job.json (s.resultOf job u))⟩ := by
  rcases account_of_mayEnd hend with ⟨-, out, hout⟩ | ⟨a, -⟩
  · rw [hlive out] at hout
    cases hout
  · obtain ⟨hout, herr⟩ := a.console hprints hlevel honce
    rw [← hout, ← herr]

end Session

/-! ### Commands that only print -/

/-- The job of a run, as its flags and settings have it. -/
def Machine.job (m : Machine) (f : Flags) (settings : Settings) (options : CompileOptions)
    (threshold : Threshold) : Job :=
  { settings := settings, options := options, threshold := threshold, print := f.print
    json := f.json, now := m.now, interrupted := m.interrupted }

/-- The warnings about settings, each on a line of its own. -/
def Settings.warningText (settings : Settings) (processors : Nat) : Text :=
  Text.eachBefore "\n" ((settings.warnings processors).map ("warning: " ++ ·))

namespace Command

variable {c : Command} {job : Job}

/-- What a check or a build does with output. -/
def emit (c : Command) (job : Job) : Emit :=
  if c = check then emitVerdict else emitOutput job

/-- What a check or a build prints about a unit that compiles. -/
def shown (c : Command) (path : Text) (o : Output) : Text :=
  if c = check then
    "ok   " ++ displayName path ++ " (" ++ Text.ofNat o.manifest.length ++ " exports)\n"
  else o.artifact

lemma prints_emit (h : c = check ∨ c = build ∧ job.print = true) :
    Prints (c.emit job) c.shown := by
  intro s path o
  rcases h with rfl | ⟨rfl, hprint⟩
  · rfl
  · simp [emit, shown, emitOutput, hprint]

/-- A check or a build that prints does nothing apart from compiling its inputs. -/
lemma console_perform {s : Session} {given inputs : List Text}
    (h : c = check ∨ c = build ∧ job.print = true)
    (hinputs : expandInputs s.tree given = .ok inputs) :
    (s.perform job given c).1.console = (s.compileInputs job (c.emit job) inputs).1.console := by
  rcases h with rfl | ⟨rfl, hprint⟩
  · simp [perform, Session.check, hinputs, emit]
  · simp [perform, Session.build, hinputs, emit, hprint, closeStore]

end Command

/-- Standard input is reported first, and then the files in order. Take a run that checks its inputs
or prints their output, with standard input among them once at most; it is not interrupted and shows
no messages of little weight. It prints the output of each input that compiles, and reports each
failed one after the warnings, in this order, however many workers compile the files and in whatever
order these finish. This is the order of the inputs if no file stands before standard input. -/
theorem standard_input_reported_first {s : Session} {m : Machine} {c : Command} {f : Flags}
    {arguments rest given inputs : List Text} {settings : Settings} {options : CompileOptions}
    {threshold : Threshold}
    (hcommand : Command.ofArguments arguments = (c, rest))
    (hflags : Flags.parse rest = .flags f given)
    (hhelp : f.help = false) (hversion : f.version = false)
    (hprints : c = .check ∨ c = .build ∧ f.print = true)
    (hsettings : Settings.ofRun m s.tree f = .ok settings)
    (hoptions : settings.compileOptions = .ok (options, threshold))
    (hlevel : threshold.admits .debug = false)
    (hinputs : expandInputs s.tree given = .ok inputs)
    (honce : inputs.count standardInput ≤ 1) (hlive : ∀ out, m.interrupted out = false) :
    let job := m.job f settings options threshold
    let warned := s.warn (settings.warningText m.processors)
    let console : Console :=
      ⟨s.console.out ++
          (inputsFirst inputs).flatMap (fun u => printedFor c.shown u (s.resultOf job u)),
        s.console.err ++ settings.warningText m.processors ++
          (inputsFirst inputs).flatMap (fun u => reportedFor f.json (s.resultOf job u))⟩
    (s.run m arguments).1.console = console ∧
    (∀ workers after failure, warned.MayEnd job (c.emit job) inputs workers (after, failure) →
      after.console = console) ∧
    ((∀ before after, inputs = before ++ standardInput :: after → before = []) →
      inputsFirst inputs = inputs) := by
  intro job warned console
  have hall : ∀ workers after failure,
      warned.MayEnd job (c.emit job) inputs workers (after, failure) → after.console = console :=
    fun workers after failure hend =>
      console_of_mayEnd (Command.prints_emit hprints) hlevel honce hlive hend
  refine ⟨?_, hall, inputsFirst_eq_self⟩
  have hrun : s.run m arguments = warned.perform job given c := by
    simp only [Session.run, hcommand, hflags, hhelp, hversion, runCommand, hsettings, hoptions,
      Bool.false_eq_true, if_false]
    rfl
  rw [hrun]
  refine (Command.console_perform (s := warned) hprints hinputs).trans ?_
  exact hall 1 _ _ (warned.mayEnd_compileInputs job (c.emit job) inputs (by decide))

/-- A program in a file, a broken file, and another program on standard input. -/
def twoSources : Session :=
  { tree :=
      { entries := [(["a.json"], .file oneProgram), (["b.json"], .file "\x7b\x7d")] }
    input := twoProgram }

/-- A machine with nothing in its environment, on which runs are not interrupted. -/
def plainMachine : Machine :=
  { environment := fun _ => [], processors := 1, now := ⟨0⟩, interrupted := fun _ => false }

/-- The settings of a run that starts in the root directory, where there is no settings file. -/
def rootSettings : Settings := { baseDir := "/", manifest := { database := "/jsxl.db" } }

/-- Standard input behind two files. -/
def lastInput : List Text := ["b.json", "a.json", "-"]

theorem standard_input_checked_first :
    expandInputs twoSources.tree lastInput = .ok lastInput ∧
      (twoSources.run plainMachine ("check" :: lastInput)).1.console =
        ⟨"ok   <stdin> (0 exports)\nok   a.json (0 exports)\n",
          ((Fault.badTree .untypedNode).report.inFile "b.json").pretty ++ "\n"⟩ := by
  have hcommand : Command.ofArguments ("check" :: lastInput) = (Command.check, lastInput) := rfl
  have hflags : Flags.parse lastInput = .flags {} lastInput := rfl
  have hsettings : Settings.ofRun plainMachine twoSources.tree {} = .ok rootSettings := rfl
  have hoptions : rootSettings.compileOptions = .ok ({}, .atLeast .info) := rfl
  have hinputs : expandInputs twoSources.tree lastInput = .ok lastInput := rfl
  obtain ⟨hconsole, -⟩ := standard_input_reported_first hcommand hflags rfl rfl (.inl rfl)
    hsettings hoptions rfl hinputs (by decide) (fun _ => rfl)
  refine ⟨hinputs, hconsole.trans ?_⟩
  decide +kernel

/-- Standard input is printed before a file that stands before it. -/
theorem standard_input_overtakes_file :
    expandInputs twoSources.tree ["a.json", "-"] = .ok ["a.json", "-"] ∧
      (["a.json", "-"] : List Text).flatMap (fun u =>
        printedFor Command.build.shown u (twoSources.resultOf plainJob u)) = "=1\n=2\n" ∧
      (twoSources.run plainMachine ["--print", "a.json", "-"]).1.console.out = "=2\n=1\n" := by
  refine ⟨rfl, ?_⟩
  decide +kernel

end SheetFormula
