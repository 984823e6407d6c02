import SheetFormula.Proofs.CommandLine.Lockstep
import SheetFormula.Proofs.CommandLine.Overwriting
import SheetFormula.Proofs.Diagnostic.Report

/-!
# Building again

A build that follows another one finds the same units, with the same content, and a tree in which
the directories for output have been made. So it comes to the same results, and writes what is there
already.
-/

namespace SheetFormula

open SheetFormula.Path Session

/-! ### Two builds -/

namespace Session

variable {s after : Session} {job : Job} {inputs arguments : List Text}

lemma build_eq {opened : Session} (hprint : job.print = false)
    (hinputs : expandInputs s.tree arguments = .ok inputs) (hopen : s.openStore job = .ok opened) :
    s.build job arguments =
      ((opened.compileInputs job (emitOutput job) inputs).1.closeStore,
        (opened.compileInputs job (emitOutput job) inputs).2) := by
  simp only [build, hinputs, hprint, hopen, Bool.false_eq_true, if_false]

/-- A build that changes the tree has inputs and a store, and does not print its output. -/
lemma build_of_changed (hstore : s.store = none) (h : (s.build job arguments).1.tree ≠ s.tree) :
    ∃ inputs opened, job.print = false ∧ expandInputs s.tree arguments = .ok inputs ∧
      s.openStore job = .ok opened ∧
      s.tree.Grows (job.directories s.tree inputs) (job.targets s.tree inputs)
        (s.build job arguments).1.tree := by
  have hprint : job.print = false := by
    by_contra hprint
    refine h (@tree_perform s ⟨.build, {}, job, arguments⟩ (.inr (.inr ⟨rfl, ?_⟩)))
    simpa using hprint
  cases hinputs : expandInputs s.tree arguments with
  | error f => exact absurd (by rw [build, hinputs]) h
  | ok inputs =>
    cases hopen : s.openStore job with
    | error f =>
      refine absurd ?_ h
      simp only [build, hinputs, hprint, hopen, Bool.false_eq_true, if_false]
    | ok opened =>
      have hend := opened.mayEnd_compileInputs job (emitOutput job) inputs Nat.one_pos
      refine ⟨inputs, opened, hprint, rfl, rfl, ?_⟩
      rw [build_eq hprint hinputs hopen]
      exact (MayEnd.inBuild hstore hprint hopen hend).grows

/-- A build after a build of the same arguments does the same. -/
lemma build_twice (hstore : s.store = none) (hsound : s.tree.Sound) (hnamed : s.tree.WellNamed)
    (hunits : NamesUnits s.tree arguments) (hfiles : job.FilesOnly) :
    let first := s.build job arguments
    let again := build { s with tree := first.1.tree } job arguments
    again.2 = first.2 ∧ again.1.console = first.1.console ∧
      ∀ l, again.1.tree.get? l = first.1.tree.get? l := by
  intro first again
  -- If the first build has changed nothing, then the second one is the first one once more.
  by_cases hsame : first.1.tree = s.tree
  · have hagain : again = first := by
      change build { s with tree := first.1.tree } job arguments = s.build job arguments
      rw [hsame]
    rw [hagain]
    exact ⟨rfl, rfl, fun _ => rfl⟩
  · obtain ⟨inputs, opened, hprint, hinputs, hopen, hgrows⟩ := build_of_changed hstore hsame
    obtain ⟨htables, htree, hopens⟩ := openStore_files hstore hfiles hopen
    have hnoUnit : ∀ l ∈ job.targets s.tree inputs, FileTree.NoUnit l := fun l => hfiles.noUnit
    have hsteps : Steps job s.tree := ⟨hsound, hfiles.database_eq_none s.tree⟩
    have hstart : InStep job inputs s.tree first.1.tree opened
        { opened with tree := first.1.tree } := .start hstore hfiles hopen hgrows
    have hcompile : ∀ u ∈ inputs, u ≠ standardInput →
        first.1.tree.compileFile job.options u = s.tree.compileFile job.options u := by
      intro u hu hfile
      have hunit := hasUnit_of_mem_inputs hsound hnamed hunits hinputs hu hfile
      exact hunit.compileFile hgrows hnoUnit job.options
    -- Both end in step, and the tree that the second one starts on is the end of the first one.
    obtain ⟨hlast, hfailure⟩ := hstart.compileInputs hsteps hprint htree hcompile
    have hfirst : first = _ := build_eq hprint hinputs hopen
    have hagain : again = _ :=
      build_eq hprint (expandInputs_of_grows hgrows hsound hnoUnit hinputs) (hopens first.1.tree)
    refine ⟨?_, ?_, fun l => ?_⟩
    · calc again.2 = _ := congrArg Prod.snd hagain
        _ = _ := hfailure
        _ = first.2 := (congrArg Prod.snd hfirst).symm
    · calc again.1.console = _ := congrArg (·.1.console) hagain
        _ = _ := hlast.console
        _ = first.1.console := (congrArg (·.1.console) hfirst).symm
    · have hplace : again.1.tree.get? l = _ := congrArg (·.1.tree.get? l) hagain
      rw [hplace]
      rcases hlast.together l with htogether | ⟨-, hkept⟩
      · exact htogether.trans (congrArg (·.1.tree.get? l) hfirst).symm
      · exact hkept

/-! ### Builds with several workers -/

lemma Handles.functional {emit : Emit} {x x' : Handling} {after' : Session}
    (h : Handles job emit s x after) (h' : Handles job emit s x' after') (hpath : x.path = x'.path)
    (hresult : x.result = x'.result) : after = after' := by
  cases h with
  | rejected =>
    cases h' with
    | rejected =>
      cases hresult
      rfl
    | emitted _ => cases hresult
  | emitted hemit =>
    cases h' with
    | rejected => cases hresult
    | emitted hemit' =>
      cases hpath
      cases hresult
      cases hemit.symm.trans hemit'
      rfl

lemma HandlesAll.functional {emit : Emit} {source : Source} {hs hs' : List Handling}
    {after' : Session} (h : HandlesAll job emit source s hs after)
    (h' : HandlesAll job emit source s hs' after')
    (hpaths : hs.map Handling.path = hs'.map Handling.path) : after = after' := by
  induction h generalizing hs' with
  | nil s =>
    cases h' with
    | nil => rfl
    | cons _ _ _ => cases hpaths
  | cons hsource hfirst _ ih =>
    cases h' with
    | nil => cases hpaths
    | cons hsource' hfirst' hrest' =>
      obtain ⟨hpath, hrest⟩ := List.cons.inj hpaths
      rw [hpath, hsource'] at hsource
      obtain ⟨rfl, hresult⟩ := Prod.mk.inj hsource
      obtain rfl := hfirst.functional hfirst' hpath hresult.symm
      exact ih hrest' hrest

/-- Where the progress of a batch is not shown, all runs of one kind that are not cancelled come to
the same session, with the same on the console. -/
lemma Account.eq_of_quiet {emit : Emit} {after' : Session}
    (hlevel : job.threshold.admits .debug = false) (a : Account job emit s inputs after)
    (a' : Account job emit s inputs after') : after = after' := by
  have hmid : a.mid = a'.mid :=
    a.first.functional a'.first (a.inputPaths.trans a'.inputPaths.symm)
  have hsecond := a.second
  have hsecond' := a'.second
  rw [foldl_log_debug hlevel a.severity_lines, hmid] at hsecond
  rw [foldl_log_debug hlevel a'.severity_lines] at hsecond'
  exact hsecond.functional hsecond' (a.filePaths.trans a'.filePaths.symm)

/-- All runs of one kind that are not interrupted come to the same end and report the same. They
print the same as well, unless the progress of the batch is shown. -/
lemma MayEnd.unique {workers workers' : Nat} {after after' : Session}
    {failure failure' : Option Failure} (hfree : ∀ out, job.interrupted out = false)
    (h : s.MayEnd job (emitOutput job) inputs workers (after, failure))
    (h' : s.MayEnd job (emitOutput job) inputs workers' (after', failure')) :
    Alike after after' ∧ failure = failure' ∧ after.console.err = after'.console.err ∧
      (job.threshold.admits .debug = false → after.console = after'.console) := by
  have hblind : Blind (emitOutput job) := blind_emitOutput fun out out' => by
    rw [hfree, hfree]
  rcases account_of_mayEnd h with ⟨-, out, hout⟩ | ⟨a, rfl⟩
  · rw [hfree] at hout
    cases hout
  · rcases account_of_mayEnd h' with ⟨-, out, hout⟩ | ⟨a', rfl⟩
    · rw [hfree] at hout
      cases hout
    · obtain ⟨hhandlings, halike⟩ := a.unique hblind a'
      refine ⟨halike, ?_, ?_, fun hlevel => by rw [a.eq_of_quiet hlevel a']⟩
      · rw [Account.failures, Account.failures, hhandlings]
      · rw [a.err (silent_emitOutput job), a'.err (silent_emitOutput job), hhandlings]

/-- A build that writes files may end in a way, if its tasks can be ordered so. -/
def MayBuild (s : Session) (job : Job) (arguments : List Text) (workers : Nat) (last : Session)
    (failure : Option Failure) : Prop :=
  ∃ inputs opened, job.print = false ∧ expandInputs s.tree arguments = .ok inputs ∧
    s.openStore job = .ok opened ∧
    opened.MayEnd job (emitOutput job) inputs workers (last, failure)

/-- However the tasks of a build are ordered, it does what it does with the files in order. -/
lemma MayBuild.eq_build {workers : Nat} {last : Session} {failure : Option Failure}
    (hfree : ∀ out, job.interrupted out = false)
    (h : s.MayBuild job arguments workers last failure) :
    let inOrder := s.build job arguments
    last.tree = inOrder.1.tree ∧ failure = inOrder.2 ∧
      last.console.err = inOrder.1.console.err ∧
      (job.threshold.admits .debug = false → last.console = inOrder.1.console) := by
  obtain ⟨inputs, opened, hprint, hinputs, hopen, hend⟩ := h
  obtain ⟨halike, hfailure, herr, hquiet⟩ :=
    hend.unique hfree (opened.mayEnd_compileInputs job (emitOutput job) inputs Nat.one_pos)
  rw [build_eq hprint hinputs hopen]
  exact ⟨halike.tree, hfailure, herr, hquiet⟩

/-- A build after a build of the same arguments does the same, however the tasks of both are
ordered. -/
lemma MayBuild.twice {workers workers' : Nat} {last last' : Session}
    {failure failure' : Option Failure} {now : Instant}
    (h : s.MayBuild job arguments workers last failure) (hstore : s.store = none)
    (hsound : s.tree.Sound) (hnamed : s.tree.WellNamed) (hunits : NamesUnits s.tree arguments)
    (hfiles : job.FilesOnly) (hfree : ∀ out, job.interrupted out = false)
    (h' : MayBuild { s with tree := last.tree } (job.again now) arguments workers' last' failure') :
    failure' = failure ∧ last'.console.err = last.console.err ∧
      (job.threshold.admits .debug = false → last'.console.out = last.console.out) ∧
      ∀ l, last'.tree.get? l = last.tree.get? l := by
  obtain ⟨hlast, hfailure, herr, hquiet⟩ := h.eq_build hfree
  have hfree' : ∀ out, (job.again now).interrupted out = false := hfree
  have hthreshold : (job.again now).threshold = job.threshold := rfl
  obtain ⟨hlast', hfailure', herr', hquiet'⟩ := h'.eq_build hfree'
  have hagain := build_again (s := { s with tree := last.tree }) hstore job hfiles arguments now
  rw [hagain, hlast] at hlast' hfailure' herr' hquiet'
  obtain ⟨hending, hconsole, hget⟩ := build_twice hstore hsound hnamed hunits hfiles
  refine ⟨hfailure'.trans (hending.trans hfailure.symm), ?_, fun hlevel => ?_, fun l => ?_⟩
  · rw [herr', hconsole, herr]
  · rw [hquiet' (by rw [hthreshold, hlevel]), hconsole, hquiet hlevel]
  · rw [hlast', hlast]
    exact hget l

end Session

/-! ### Repeated tasks -/

/-- A task that can be repeated. Its arguments are standard input, directories and units, and its
manifests are in no database. Its settings file is not in the place of its output, and without one
the output goes into no directory that can be taken for one. -/
structure Task.Repeatable (task : Task) (m : Machine) (t : FileTree) : Prop where
  units : NamesUnits t task.arguments
  files : task.job.FilesOnly
  config : ∀ p inputs, Settings.choose m.environment t task.flags.config = .ok (some p) →
    expandInputs t task.arguments = .ok inputs → resolve t.here p ∉ task.job.targets t inputs
  fresh : Settings.choose m.environment t task.flags.config = .ok none →
    ¬ t.here ++ [Settings.defaultFile] <+: resolve t.here task.job.settings.outDir

namespace Machine

variable {m : Machine} {t t' : FileTree} {arguments : List Text} {task : Task}

/-- What arguments ask for depends on the tree by the settings only. -/
lemma task_eq_some :
    m.task? t arguments = some task ↔
      ∃ f given settings options threshold,
        Flags.parse (Command.ofArguments arguments).2 = .flags f given ∧
        (f.help || f.version) = false ∧ Settings.ofRun m t f = .ok settings ∧
        settings.compileOptions = .ok (options, threshold) ∧
        task =
          ⟨(Command.ofArguments arguments).1, f, m.job f settings options threshold, given⟩ := by
  rw [task?]
  constructor
  · intro h
    split at h
    · cases h
    · cases h
    · rename_i f given hflags
      split_ifs at h with hhelp
      split at h
      · cases h
      · rename_i settings hsettings
        split at h
        · cases h
        · rename_i options threshold hoptions
          cases h
          exact ⟨f, given, settings, options, threshold, hflags, by simpa using hhelp, hsettings,
            hoptions, rfl⟩
  · rintro ⟨f, given, settings, options, threshold, hflags, hhelp, hsettings, hoptions, rfl⟩
    simp only [hflags, hhelp, hsettings, hoptions, Bool.false_eq_true, if_false]

/-- After a repeatable task has been built, its arguments ask for the same. -/
lemma task_of_grows {inputs : List Text} (h : m.task? t arguments = some task) (hsound : t.Sound)
    (hrepeatable : task.Repeatable m t) (hinputs : expandInputs t task.arguments = .ok inputs)
    (hgrows : t.Grows (task.job.directories t inputs) (task.job.targets t inputs) t') :
    m.task? t' arguments = some task := by
  obtain ⟨f, given, settings, options, threshold, hflags, hhelp, hsettings, hoptions, rfl⟩ :=
    task_eq_some.mp h
  obtain ⟨chosen, hchosen⟩ := Settings.choose_of_ofRun hsettings
  have hsame : Settings.ofRun m t' f = Settings.ofRun m t f := by
    apply Settings.ofRun_of_grows hgrows hchosen
    · rintro rfl
      exact Job.isThere_defaultFile hsound hgrows (hrepeatable.files.database_eq_none t)
        (Settings.isThere_of_choose_none hchosen) (hrepeatable.fresh hchosen)
    · rintro p rfl
      exact hrepeatable.config p inputs hchosen hinputs
  exact task_eq_some.mpr ⟨f, given, settings, options, threshold, hflags, hhelp,
    hsame.trans hsettings, hoptions, rfl⟩

end Machine

namespace Task

variable {task : Task} {m : Machine} {t : FileTree} {arguments : List Text}

/-- The session in which a run with a task builds: the warnings have been printed. -/
def start (task : Task) (m : Machine) (t : FileTree) (input : Text) : Session :=
  Session.warn { tree := t, input := input } (task.job.settings.warningText m.processors)

lemma command_eq (h : m.task? t arguments = some task) :
    task.command = (Command.ofArguments arguments).1 := by
  obtain ⟨f, given, settings, options, threshold, -, -, -, -, rfl⟩ := Machine.task_eq_some.mp h
  rfl

lemma interrupted_eq (h : m.task? t arguments = some task) :
    task.job.interrupted = m.interrupted := by
  obtain ⟨f, given, settings, options, threshold, -, -, -, -, rfl⟩ := Machine.task_eq_some.mp h
  rfl

lemma run_eq (h : m.task? t arguments = some task)
    (hbuild : (Command.ofArguments arguments).1 = .build) (input : Text) :
    Session.run { tree := t, input := input } m arguments =
      ((task.start m t input).build task.job task.arguments).map id Ending.ofFailure? := by
  obtain ⟨hrun, -, -, -⟩ := run_of_task (s := { tree := t, input := input }) h
  rw [hrun, command_eq h, hbuild]
  rfl

/-- After the build of a task that can be repeated, the arguments mean the same as before. -/
lemma Repeatable.kept (hrepeatable : task.Repeatable m t) (hsound : t.Sound)
    (h : m.task? t arguments = some task) (input : Text) :
    let after := ((task.start m t input).build task.job task.arguments).1.tree
    m.task? after arguments = some task ∧
      expandInputs after task.arguments = expandInputs t task.arguments := by
  intro after
  by_cases hsame : after = t
  · rw [hsame]
    exact ⟨h, rfl⟩
  · obtain ⟨inputs, -, -, hinputs, -, hgrows⟩ := build_of_changed rfl hsame
    refine ⟨Machine.task_of_grows h hsound hrepeatable hinputs hgrows, ?_⟩
    have hagain := expandInputs_of_grows hgrows hsound (fun l => hrepeatable.files.noUnit) hinputs
    exact hagain.trans hinputs.symm

end Task

/-- Building is idempotent. After a build whose task can be repeated, another one with the same
arguments, at any time, has the same inputs, none of which is output of the first one. With its files
in order it prints the same, ends in the same way, and leaves every file and directory as it is.
Unless there are interruptions, both builds may have their tasks in any order: the first one comes to
the same files and directories, and the second one reports the same, ends in the same way and leaves
every file and directory as it is. It also prints the same, unless the progress of its tasks is
shown. -/
theorem build_again_changes_nothing {t : FileTree} {m : Machine} {arguments : List Text}
    (hsound : t.Sound) (hnamed : t.WellNamed) (hbuild : (Command.ofArguments arguments).1 = .build)
    (hrepeatable : ∀ task, m.task? t arguments = some task → task.Repeatable m t) (input : Text)
    (now : Instant) :
    let later : Machine := { m with now := now }
    let first := Session.run { tree := t, input := input } m arguments
    let again := Session.run { tree := first.1.tree, input := input } later arguments
    again.2 = first.2 ∧ again.1.console = first.1.console ∧
      (∀ l, again.1.tree.get? l = first.1.tree.get? l) ∧
      ∀ task, m.task? t arguments = some task →
        later.task? first.1.tree arguments = some (task.again now) ∧
        expandInputs first.1.tree task.arguments = expandInputs t task.arguments ∧
        (∀ inputs, expandInputs t task.arguments = .ok inputs → ∀ u ∈ inputs, u ≠ standardInput →
          resolve t.here u ∉ task.job.targets t inputs) ∧
        ((∀ out, m.interrupted out = false) → ∀ workers last failure,
          (task.start m t input).MayBuild task.job task.arguments workers last failure →
          last.tree = first.1.tree ∧ ∀ workers' last' failure',
            (task.start m last.tree input).MayBuild (task.job.again now) task.arguments workers'
              last' failure' →
            failure' = failure ∧ last'.console.err = last.console.err ∧
              (task.job.threshold.admits .debug = false →
                last'.console.out = last.console.out) ∧
              ∀ l, last'.tree.get? l = last.tree.get? l) := by
  intro later first again
  cases htask : m.task? t arguments with
  | none =>
    have htree : first.1.tree = t := tree_run_of_no_task htask
    have hagain : again = first := by
      change Session.run { tree := first.1.tree, input := input } later arguments = first
      rw [htree]
      exact run_again rfl (fun task h => by simp [htask] at h) now
    rw [hagain]
    exact ⟨rfl, rfl, fun _ => rfl, fun task h => by cases h⟩
  | some task =>
    have hrepeats := hrepeatable task htask
    have hfirst : first = _ := Task.run_eq htask hbuild input
    have htree : first.1.tree = ((task.start m t input).build task.job task.arguments).1.tree :=
      congrArg (·.1.tree) hfirst
    obtain ⟨htask', hinputs⟩ := hrepeats.kept hsound htask input
    rw [← htree] at htask' hinputs
    obtain ⟨hending, hconsole, hget⟩ :=
      build_twice (s := task.start m t input) rfl hsound hnamed hrepeats.units hrepeats.files
    rw [← htree] at hending hconsole hget
    have hagain : again = ((task.start m first.1.tree input).build task.job task.arguments).map id
        Ending.ofFailure? := by
      refine Eq.trans (run_again rfl ?_ now) (Task.run_eq htask' hbuild input)
      intro other hother
      obtain rfl := Option.some.inj (htask'.symm.trans hother)
      exact ⟨(Task.command_eq htask).trans hbuild, hrepeats.files⟩
    refine ⟨?_, ?_, ?_, ?_⟩
    · calc again.2 = _ := congrArg Prod.snd hagain
        _ = _ := congrArg Ending.ofFailure? hending
        _ = first.2 := (congrArg Prod.snd hfirst).symm
    · calc again.1.console = _ := congrArg (·.1.console) hagain
        _ = _ := hconsole
        _ = first.1.console := (congrArg (·.1.console) hfirst).symm
    · intro l
      exact (congrArg (·.1.tree.get? l) hagain).trans (hget l)
    · rintro task ⟨⟩
      refine ⟨?_, hinputs, ?_, ?_⟩
      · rw [Machine.task_again, htask']
        rfl
      · intro inputs hexpand u hu hfile
        have hunit := hasUnit_of_mem_inputs hsound hnamed hrepeats.units hexpand hu hfile
        exact hunit.not_mem fun l => hrepeats.files.noUnit
      · intro hfree workers last failure hlast
        rw [← Task.interrupted_eq htask] at hfree
        refine ⟨(hlast.eq_build hfree).1.trans htree.symm, fun workers' last' failure' hlast' => ?_⟩
        exact hlast.twice rfl hsound hnamed hrepeats.units hrepeats.files hfree hlast'

/-- The arguments of a build whose output goes into the directory in which it looks for units. -/
def nestedArguments : List Text := ["--out", "src/dist", "src"]

def nestedTask : Task :=
  { command := .build
    flags := { outDir := "src/dist" }
    job := plainMachine.job { outDir := "src/dist" } { rootSettings with outDir := "src/dist" } {}
      (.atLeast .info)
    arguments := ["src"] }

lemma task_nestedArguments : plainMachine.task? clashTree nestedArguments = some nestedTask := rfl

lemma repeatable_nestedTask : nestedTask.Repeatable plainMachine clashTree := by
  have hchoose : Settings.choose plainMachine.environment clashTree nestedTask.flags.config =
      .ok none := rfl
  refine ⟨?_, .inr rfl, fun p inputs hp => ?_, fun _ => by decide⟩
  · intro a ha _ e he
    obtain rfl : a = "src" := List.mem_singleton.mp ha
    have hfind : clashTree.find "src" = .ok .directory := rfl
    exact .inl (Except.ok.inj (he.symm.trans hfind))
  · rw [hchoose] at hp
    cases hp

theorem nested_build_again_changes_nothing :
    ∃ first again, Session.run { tree := clashTree } plainMachine nestedArguments = first ∧
      Session.run { tree := first.1.tree } { plainMachine with now := ⟨1⟩ } nestedArguments =
        again ∧
      first.1.tree.get? ["src", "dist", "x.formula"] = some (.file "=2\n") ∧
      expandInputs first.1.tree ["src"] = .ok clashingUnits ∧ again.2 = first.2 ∧
      again.1.console = first.1.console ∧ ∀ l, again.1.tree.get? l = first.1.tree.get? l := by
  have hagain := build_again_changes_nothing (t := clashTree) (m := plainMachine) (by decide)
    (by decide) rfl
    (fun task htask => by
      obtain rfl := Option.some.inj (task_nestedArguments.symm.trans htask)
      exact repeatable_nestedTask) [] ⟨1⟩
  have hwritten : (Session.build { tree := clashTree } nestedTask.job clashingUnits).1.tree.get?
      ["src", "dist", "x.formula"] = some (.file "=2\n") := by
    decide +kernel
  rw [← build_clashTree] at hwritten
  have hstart : nestedTask.start plainMachine clashTree [] = { tree := clashTree } := rfl
  have harguments : nestedTask.arguments = [("src" : Text)] := rfl
  simp only at hagain
  -- Neither run is looked at from here on.
  generalize hfirst : Session.run { tree := clashTree } plainMachine nestedArguments = first
    at hagain
  generalize hlast : Session.run { tree := first.1.tree } _ nestedArguments = again at hagain
  obtain ⟨hending, hconsole, hget, htask⟩ := hagain
  obtain ⟨-, hinputs, -, -⟩ := htask nestedTask task_nestedArguments
  rw [harguments, expandInputs_clashTree] at hinputs
  refine ⟨first, again, rfl, hlast, ?_, hinputs, hending, hconsole, hget⟩
  rw [← hfirst, Task.run_eq task_nestedArguments rfl [], hstart, harguments, Prod.map_fst, id_eq]
  exact hwritten

/-- The arguments of a build whose output goes into a directory with the name of the settings
file. -/
def settingsArguments : List Text := ["--quiet", "--out", "jsxl.yaml", "a.json"]

/-- A build without a failure after which the same build fails: it takes the directory with the
output for the settings file. -/
theorem output_taken_for_settings :
    let first := Session.run { tree := staleTree } plainMachine settingsArguments
    let again := Session.run { tree := first.1.tree } plainMachine settingsArguments
    staleTree.Sound ∧ staleTree.WellNamed ∧ isUnit "a.json" = true ∧
      (Settings.choose plainMachine.environment staleTree []).toOption = some none ∧
      first.2.failure? = none ∧
      again.2.failure?.map Failure.message =
        some "loading config: failed to read config: read jsxl.yaml: is a directory" := by
  decide +kernel

end SheetFormula
