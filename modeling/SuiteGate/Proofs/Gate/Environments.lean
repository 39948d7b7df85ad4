import SuiteGate.Disk.Planting
import SuiteGate.Gate.MarkerLog
import SuiteGate.Gate.SuiteTasks
import SuiteGate.Proofs.Environment.Overrides
import SuiteGate.Proofs.Environment.Tools
import SuiteGate.Proofs.Gate.Runs
/-!
# The environment of a gate

The tasks of a gate may run tools, and what environment these see must not depend on the tasks that
ran before.  A gate run is taken apart into the executions of its tasks (`Execution`): the task,
the world in which its action started, and the tools it ran.  In a run whose reporter leaves the
environment and the record of calls alone (`Reporter.IsPassive`), `exists_executions` attributes
every tool to one of them and gives its environment.

The headline is `runSuiteGate_environments`.  The tools of the suite's gate see the environment of
the caller with the variables for developer programs that it does not set (`found?`); those of the
tests known to pass see three more; and in the end the caller's environment is back.
-/

namespace SuiteGate

/-! ### The programs for developers -/

namespace Developer

variable (d : Disk) (cwd : List Name) (e : Environment) (suiteDir : Path)

/-- What is found for a variable that names a program for developers. -/
def found? (key : String) : Option String :=
  if key = compilerVariable then (findCompiler d cwd suiteDir).map Path.text
  else if key = eclipseVariable then (findEclipse d cwd suiteDir).map Path.text
  else none

theorem getElem?_choose (key k : String) (found : Option Path) (o : Overrides) :
    (choose e key found o).changes[k]? =
      if k = key ∧ e[key]? = none ∧ found.isSome then found.map fun p => .set p.text
      else o.changes[k]? := by
  unfold choose
  rw [Std.ExtTreeMap.contains_eq_isSome_getElem?]
  cases he : e[key]? with
  | some v => simp
  | none =>
    cases found with
    | none => simp
    | some p =>
      by_cases hk : k = key
      · simp [hk]
      · have hk' : ¬ key = k := fun h => hk h.symm
        simp [hk, hk']

/-- **A variable of the caller is never replaced,** and the two variables for programs are set
where they are missing and a program is found. -/
theorem getElem?_update_missingOverrides (key : String) :
    ((missingOverrides d cwd e suiteDir).update e)[key]? =
      e[key]?.or (found? d cwd suiteDir key) := by
  have hne : ¬ eclipseVariable = compilerVariable := by decide
  rw [Overrides.getElem?_update, missingOverrides, getElem?_choose, getElem?_choose,
    Overrides.getElem?_empty, found?]
  by_cases heclipse : key = eclipseVariable
  · subst heclipse
    cases hset : e[eclipseVariable]? <;> cases hfound : findEclipse d cwd suiteDir <;>
      simp [hne, Change.value?]
  · by_cases hcompiler : key = compilerVariable
    · subst hcompiler
      cases hset : e[compilerVariable]? <;> cases hfound : findCompiler d cwd suiteDir <;>
        simp [heclipse, Change.value?]
    · simp [heclipse, hcompiler]

end Developer

namespace Gate

/-! ### Executions -/

/-- A reporter that leaves the environment and the record of calls alone. -/
def Reporter.IsPassive (report : Reporter World) : Prop :=
  ∀ e w, (report e w).environment = w.environment ∧ (report e w).calls = w.calls

/-- The markers of events are written by a passive reporter if writing and warning are passive. -/
theorem Reporter.isPassive_markers {now : World → Instant}
    {write : String → World → Except OsError World} {warn : String → World → World}
    (hwrite : ∀ text w v, write text w = .ok v →
      v.environment = w.environment ∧ v.calls = w.calls)
    (hwarn : ∀ text w, (warn text w).environment = w.environment ∧ (warn text w).calls = w.calls) :
    Reporter.IsPassive (MarkerLog.report now write warn) := by
  intro e w
  unfold MarkerLog.report
  split
  · exact ⟨rfl, rfl⟩
  · split
    · next h => exact hwrite _ w _ h
    · exact hwarn _ w

/-- A task whose action was executed, the world in which that started, and the tools it ran. -/
structure Execution where
  task : Task World
  start : World
  calls : List Call

section

variable {report : Reporter World} {now : World → Instant} {selection : Selection}

variable (report now selection) in
/-- An execution in a run of some tasks: its action started in the world that the tasks before it
left, and ran those tools. -/
structure Execution.InRun (tasks : List (Task World)) (w : World) (x : Execution) : Prop where
  start_eq : ∃ earlier later, tasks = earlier ++ x.task :: later ∧
    x.start = report (.began x.task.name) (runTasks report now selection earlier w).2
  calls_eq : (x.task.action.run.run x.start).2.calls = x.start.calls ++ x.calls

/-- A run whose head does not fail panics exactly if that of the others panics. -/
theorem runTasks_cons_panic_iff {head : Task World} {w v : World} {line : TaskReport}
    (hhead : runTask report now selection head w = (.ok line, v)) (tasks : List (Task World)) :
    (runTasks report now selection (head :: tasks) w).1 = .error .panic ↔
      (runTasks report now selection tasks v).1 = .error .panic := by
  rw [runTasks_cons_of_ok hhead]
  cases (runTasks report now selection tasks v).1 <;> simp [Except.map]

/-- An execution behind a head that does not fail. -/
theorem Execution.InRun.cons {head : Task World} {tasks : List (Task World)} {w v : World}
    {line : TaskReport} {x : Execution} (h : x.InRun report now selection tasks v)
    (hhead : runTask report now selection head w = (.ok line, v)) :
    x.InRun report now selection (head :: tasks) w := by
  obtain ⟨⟨earlier, later, hsplit, hstart⟩, hcalls⟩ := h
  refine ⟨⟨head :: earlier, later, by rw [hsplit]; rfl, ?_⟩, hcalls⟩
  rw [runTasks_cons_of_ok hhead, hstart]

variable (now) in
/-- A task that is not picked runs no tool and leaves the environment alone. -/
theorem exists_runTask_of_not_picks (hreport : report.IsPassive) {task : Task World}
    (hp : ¬ selection.Picks task) (w : World) :
    ∃ line v, runTask report now selection task w = (.ok line, v) ∧
      v.environment = w.environment ∧ v.calls = w.calls := by
  have hs : ¬ selection.selects task.tags = true := fun hs => hp ((selection.selects_iff task).mp hs)
  refine ⟨_, _, if_neg hs, ?_, ?_⟩
  · exact (hreport _ _).1
  · exact (hreport _ _).2

variable (now) in
/-- **What one picked task runs,** and what it leaves. -/
theorem exists_execution_of_picks (hreport : report.IsPassive) {task : Task World}
    {f : Environment → Environment} (htask : Op.ToolsIn f task.action) (hp : selection.Picks task)
    (w : World) :
    ∃ cs, (runTask report now selection task w).2.calls = w.calls ++ cs ∧
      (task.action.run.run (report (.began task.name) w)).2.calls =
        (report (.began task.name) w).calls ++ cs ∧
      (∀ c ∈ cs, c.environment = f w.environment) ∧
      ((runTask report now selection task w).1 ≠ .error .panic →
        (runTask report now selection task w).2.environment = w.environment) := by
  have hs : selection.selects task.tags = true := (selection.selects_iff task).mpr hp
  obtain ⟨henv, hcalls⟩ := hreport (.began task.name) w
  obtain ⟨cs, hran, hin, hleft⟩ := htask (report (.began task.name) w)
  rw [henv] at hin hleft
  refine ⟨cs, ?_, hran, hin, ?_⟩
  · rw [hcalls] at hran
    rw [runTask, if_pos hs]
    rcases hact : task.action.run.run (report (.began task.name) w) with ⟨(e | _) | _, v⟩ <;>
      (rw [hact] at hran; simp only [hact])
    · exact ((hreport _ _).2).trans hran
    · exact hran
    · exact ((hreport _ _).2).trans hran
  · rw [runTask, if_pos hs]
    rcases hact : task.action.run.run (report (.began task.name) w) with ⟨(e | _) | _, v⟩ <;>
      (rw [hact] at hleft; simp only [hact])
    · exact fun _ => ((hreport _ _).1).trans (hleft (by simp))
    · exact fun hpanic => absurd rfl hpanic
    · exact fun _ => ((hreport _ _).1).trans (hleft (by simp))

variable (report now selection) in
/-- The executions of a run: they are those of the first tasks that are picked, every tool of the
run belongs to one of them, and it is started in the environment that the task gives for the one at
the start of the run. -/
structure Executions (f : Task World → Environment → Environment) (tasks : List (Task World))
    (w : World) (xs : List Execution) : Prop where
  picked : xs.map Execution.task <+: tasks.filter (selection.Picks ·)
  calls : (runTasks report now selection tasks w).2.calls = w.calls ++ xs.flatMap Execution.calls
  inRun : ∀ x ∈ xs, x.InRun report now selection tasks w ∧ x.start.environment = w.environment ∧
    ∀ c ∈ x.calls, c.environment = f x.task w.environment
  leaves : (runTasks report now selection tasks w).1 ≠ .error .panic →
    (runTasks report now selection tasks w).2.environment = w.environment

section

variable {f : Task World → Environment → Environment} {head : Task World}
  {tasks : List (Task World)} {w v : World} {line : TaskReport} {xs : List Execution}

/-- A task that is not picked is passed over. -/
theorem Executions.passOver (h : Executions report now selection f tasks v xs)
    (hp : ¬ selection.Picks head)
    (hhead : runTask report now selection head w = (.ok line, v))
    (henv : v.environment = w.environment) (hcalls : v.calls = w.calls) :
    Executions report now selection f (head :: tasks) w xs where
  picked := by
    rw [List.filter_cons_of_neg (by simpa using hp)]
    exact h.picked
  calls := by rw [runTasks_cons_of_ok hhead, h.calls, hcalls]
  inRun x hx := by
    obtain ⟨hrun, hstart, hin⟩ := h.inRun x hx
    rw [henv] at hstart hin
    exact ⟨hrun.cons hhead, hstart, hin⟩
  leaves hpanic := by
    rw [runTasks_cons_of_ok hhead]
    exact (h.leaves fun h' => hpanic ((runTasks_cons_panic_iff hhead tasks).mpr h')).trans henv

/-- A task that is picked and succeeds comes before the others. -/
theorem Executions.cons {cs : List Call} (h : Executions report now selection f tasks v xs)
    (hp : selection.Picks head) (hhead : runTask report now selection head w = (.ok line, v))
    (henv : v.environment = w.environment) (hcalls : v.calls = w.calls ++ cs)
    (hfirst : Execution.InRun report now selection (head :: tasks) w
      ⟨head, report (.began head.name) w, cs⟩)
    (hstart : (report (.began head.name) w).environment = w.environment)
    (hin : ∀ c ∈ cs, c.environment = f head w.environment) :
    Executions report now selection f (head :: tasks) w
      (⟨head, report (.began head.name) w, cs⟩ :: xs) where
  picked := by
    rw [List.filter_cons_of_pos (by simpa using hp)]
    exact List.cons_prefix_cons.mpr ⟨rfl, h.picked⟩
  calls := by
    rw [runTasks_cons_of_ok hhead, h.calls, hcalls, List.flatMap_cons, List.append_assoc]
  inRun x hx := by
    rcases List.mem_cons.mp hx with rfl | hx
    · exact ⟨hfirst, hstart, hin⟩
    · obtain ⟨hrun, hstart', hin'⟩ := h.inRun x hx
      rw [henv] at hstart' hin'
      exact ⟨hrun.cons hhead, hstart', hin'⟩
  leaves hpanic := by
    rw [runTasks_cons_of_ok hhead]
    exact (h.leaves fun h' => hpanic ((runTasks_cons_panic_iff hhead tasks).mpr h')).trans henv

end

variable (now selection) in
/-- **Every tool of a run belongs to the execution of a task.** -/
theorem exists_executions (hreport : report.IsPassive)
    {f : Task World → Environment → Environment} {tasks : List (Task World)}
    (htasks : ∀ task ∈ tasks, Op.ToolsIn (f task) task.action) (w : World) :
    ∃ xs, Executions report now selection f tasks w xs := by
  induction tasks generalizing w with
  | nil => exact ⟨[], List.prefix_rfl, by simp [runTasks], by simp, fun _ => rfl⟩
  | cons head tasks ih =>
    have htail : ∀ task ∈ tasks, Op.ToolsIn (f task) task.action := fun task ht =>
      htasks task (List.mem_cons_of_mem _ ht)
    by_cases hp : selection.Picks head
    · obtain ⟨cs, hcalls, hran, hin, hleft⟩ :=
        exists_execution_of_picks now hreport (htasks head (List.mem_cons_self ..)) hp w
      have hstart : (report (.began head.name) w).environment = w.environment := (hreport _ _).1
      have hfirst : Execution.InRun report now selection (head :: tasks) w
          ⟨head, report (.began head.name) w, cs⟩ := ⟨⟨[], tasks, rfl, rfl⟩, hran⟩
      rcases hhead : runTask report now selection head w with ⟨fault | line, v⟩
      · -- the run ends with the head
        rw [hhead] at hcalls hleft
        refine ⟨[⟨head, report (.began head.name) w, cs⟩], ?_, ?_, fun x hx => ?_, ?_⟩
        · simp [hp]
        · simpa [runTasks_cons_of_error hhead] using hcalls
        · obtain rfl := List.mem_singleton.mp hx
          exact ⟨hfirst, hstart, hin⟩
        · simpa [runTasks_cons_of_error hhead] using hleft
      · rw [hhead] at hcalls hleft
        obtain ⟨xs, hxs⟩ := ih htail v
        exact ⟨_, hxs.cons hp hhead (hleft (by simp)) hcalls hfirst hstart hin⟩
    · obtain ⟨line, v, hhead, hv, hcalls⟩ := exists_runTask_of_not_picks now hreport hp w
      obtain ⟨xs, hxs⟩ := ih htail v
      exact ⟨xs, hxs.passOver hp hhead hv hcalls⟩

end

/-! ### The gate of the suite -/

section

variable (runner : Runner) (s : Suite)

/-- The environment that the tools of a task see, from the one of the gate: the tests that are known
to pass have overrides of their own. -/
def toolEnvironment (task : Task World) (e : Environment) : Environment :=
  if Tag.taggedUnittest.text ∈ task.tags then (taggedOverrides s).update e else e

theorem toolsIn_testLauncher (l : GraalVm.Launcher) (sandboxed : Bool) (r : Tests.TestRun) :
    (testLauncher runner s l sandboxed r).ToolsIn id :=
  .bind (GraalVm.Launcher.toolsIn_build runner s l sandboxed) fun launcher =>
    Tests.toolsIn_runTests runner s launcher r

theorem toolsIn_runWithInterpreterIfAny : (runWithInterpreterIfAny runner s).ToolsIn id := by
  refine .bind Op.RunsNone.get.toolsIn fun w => ?_
  split
  · exact .discard (.runChecked _)
  · exact (Op.RunsNone.pure _).toolsIn

theorem toolsIn_runTagged : (runTagged runner s).ToolsIn (taggedOverrides s).update :=
  (toolsIn_testLauncher runner s _ _ _).withEnv _

/-- **The tools of every task** see the environment of the gate, with the overrides of their task if
it has any. -/
theorem toolsIn_suiteTasks :
    ∀ task ∈ suiteTasks runner s, Op.ToolsIn (toolEnvironment s task) task.action := by
  have hplain : ∀ name tags action, Tag.taggedUnittest.text ∉ tags.map Tag.text →
      Op.ToolsIn id action →
        Op.ToolsIn (toolEnvironment s (suiteTask name tags action))
          (suiteTask name tags action).action := by
    intro name tags action hnot h
    have heq : toolEnvironment s (suiteTask name tags action) = id := by
      funext e
      exact if_neg hnot
    rw [heq]
    exact h
  intro task htask
  simp only [suiteTasks, List.mem_cons, List.not_mem_nil, or_false] at htask
  rcases htask with rfl | rfl | rfl | rfl | rfl | rfl | rfl | rfl | rfl | rfl | rfl | rfl | rfl | rfl
  · exact hplain _ _ _ (by decide) (Tests.toolsIn_runJunit runner s _)
  · exact hplain _ _ _ (by decide) (.bind (toolsIn_runWithInterpreterIfAny runner s) fun _ =>
      toolsIn_testLauncher runner s _ _ _)
  · exact hplain _ _ _ (by decide) (toolsIn_testLauncher runner s _ _ _)
  · exact hplain _ _ _ (by decide) (toolsIn_testLauncher runner s _ _ _)
  · exact hplain _ _ _ (by decide) (toolsIn_testLauncher runner s _ _ _)
  · exact toolsIn_runTagged runner s
  · exact hplain _ _ _ (by decide) (toolsIn_testLauncher runner s _ _ _)
  · exact hplain _ _ _ (by decide) (toolsIn_testLauncher runner s _ _ _)
  · exact hplain _ _ _ (by decide) (Style.toolsIn_checkCopyrights runner s _)
  · exact hplain _ _ _ (by decide) (GraalVm.toolsIn_sharedLibraryCheck runner s _)
  · exact hplain _ _ _ (by decide) (GraalVm.toolsIn_sharedLibraryCheck runner s _)
  · exact hplain _ _ _ (by decide) (GraalVm.toolsIn_nativeImageCheck runner s)
  · exact hplain _ _ _ (by decide) (GraalVm.toolsIn_embeddingCheck runner s)
  · exact hplain _ _ _ (by decide) (Style.toolsIn_styleChecks runner s _)

/-- The tasks of the suite's gate as one operation. -/
def suiteRun (selection : Selection) (report : Reporter World) : Op (Except Failure Summary) :=
  fun w =>
    match run report (fun w => w.disk.clock) selection (suiteTasks runner s) w with
    | (result, w) => (.ok result, w)

theorem run_warnings (xs : List String) (text : String) (w : World) :
    ((xs.forM fun _ => Op.warn text : Op PUnit).run.run w) =
      (.ok ⟨⟩, { w with warnings := w.warnings ++ xs.map fun _ => text }) := by
  induction xs generalizing w with
  | nil => rw [List.map_nil, List.append_nil]; rfl
  | cons x xs ih =>
    rw [Op.run_forM_cons]
    change ((xs.forM fun _ => Op.warn text : Op PUnit).run.run (w.warn text)) = _
    rw [ih, World.warn, List.append_assoc, List.map_cons, List.singleton_append]

/-- The world after the warnings about the tags of a selection that no task carries. -/
def warnedOf (selection : Selection) (w : World) : World :=
  { w with warnings := w.warnings ++ selection.unknown.map fun _ => unknownTagWarning }

/-- A run of the suite's gate warns and then runs the tasks under the overrides for the programs
that are found. -/
theorem run_runSuiteGate_eq (selection : Option Selection) (report : Reporter World) (w : World) :
    let picked := selection.getD (.defaults s.config.suite.sandboxed)
    (runSuiteGate runner s selection report).run.run w =
      (Op.withEnv (Developer.missingOverrides w.disk w.cwd w.environment s.dir)
        (suiteRun runner s picked report)).run.run (warnedOf picked w) := by
  intro picked
  unfold runSuiteGate
  rw [Op.run_bind, run_warnings]
  rfl

theorem run_runSuiteGate (selection : Option Selection) (report : Reporter World) (w : World) :
    ∃ ws, (runSuiteGate runner s selection report).run.run w =
      (Op.withEnv (Developer.missingOverrides w.disk w.cwd w.environment s.dir)
        (suiteRun runner s (selection.getD (.defaults s.config.suite.sandboxed)) report)).run.run
          { w with warnings := ws } :=
  ⟨_, run_runSuiteGate_eq runner s selection report w⟩

/-- The tasks record the same calls as the operation made of them. -/
theorem calls_suiteRun {report : Reporter World} (hreport : report.IsPassive)
    (selection : Selection) (w : World) :
    ((suiteRun runner s selection report).run.run w).2.calls =
      (runTasks report (fun w => w.disk.clock) selection (suiteTasks runner s) w).2.calls := by
  change (suiteRun runner s selection report w).2.calls = _
  unfold suiteRun run
  rcases runTasks report (fun w => w.disk.clock) selection (suiteTasks runner s) w with ⟨f | rs, t⟩
  · rfl
  · exact (hreport _ _).2

/-- **The environments of the suite's gate.**  What the caller sets is seen by every tool, together
with the two variables for programs where they are missing and found; a tool of the tests known to
pass sees the overrides of these tests on top; each task starts in the same environment.  When the
run returns, with a summary or with a failed task, the environment of the caller is back. -/
theorem runSuiteGate_environments {report : Reporter World} (hreport : report.IsPassive)
    (selection : Option Selection) (w : World) :
    let tasks := suiteTasks runner s
    let picked := selection.getD (.defaults s.config.suite.sandboxed)
    let e := (Developer.missingOverrides w.disk w.cwd w.environment s.dir).update w.environment
    let result := (runSuiteGate runner s selection report).run.run w
    (∀ key, e[key]? = w.environment[key]?.or (Developer.found? w.disk w.cwd s.dir key)) ∧
    (∃ (v : World) (xs : List Execution),
      (v.environment = e ∧ v.disk = w.disk ∧ v.cwd = w.cwd ∧ v.calls = w.calls) ∧
      xs.map Execution.task <+: tasks.filter (picked.Picks ·) ∧
      result.2.calls = w.calls ++ xs.flatMap Execution.calls ∧
      ∀ x ∈ xs, x.InRun report (fun w => w.disk.clock) picked tasks v ∧ x.start.environment = e ∧
        ∀ c ∈ x.calls, c.environment =
          if Tag.taggedUnittest.text ∈ x.task.tags then (taggedOverrides s).update e else e) ∧
    (∀ outcome, result.1 = .ok outcome → result.2.environment = w.environment) := by
  intro tasks picked e result
  obtain ⟨ws, hrun⟩ := run_runSuiteGate runner s selection report w
  refine ⟨Developer.getElem?_update_missingOverrides _ _ _ _, ?_, fun outcome hok => ?_⟩
  · let v : World := { w with warnings := ws, environment := e }
    obtain ⟨xs, hprefix, hcalls, hall, -⟩ := exists_executions (fun w => w.disk.clock) picked
      hreport (toolsIn_suiteTasks runner s) v
    have hresult : result.2.calls = _ := (congrArg (·.2.calls) hrun).trans (Op.calls_withEnv _ _ _)
    by_cases haccepted : ((Developer.missingOverrides w.disk w.cwd w.environment s.dir).apply
      w.environment).1 = true
    · rw [if_pos haccepted, calls_suiteRun runner s hreport] at hresult
      exact ⟨v, xs, ⟨rfl, rfl, rfl, rfl⟩, hprefix, hresult.trans hcalls, hall⟩
    · -- an override is refused, and no task is run
      rw [if_neg haccepted] at hresult
      refine ⟨v, [], ⟨rfl, rfl, rfl, rfl⟩, List.nil_prefix, ?_, by simp⟩
      rw [hresult, List.flatMap_nil, List.append_nil]
  · have hleft := @Op.environment_withEnv _
      (Developer.missingOverrides w.disk w.cwd w.environment s.dir)
      (suiteRun runner s picked report) { w with warnings := ws }
    rw [← hrun] at hleft
    have hreturns : ((runSuiteGate runner s selection report).run.run w).1 = .ok outcome := hok
    exact hleft (by rw [hreturns]; simp)

end

/-- Tools that all print the same, and of which only version control fails. -/
def smallTools : Runner := fun i w =>
  ⟨w.disk, .ok ⟨some (if i.program = "git" then 1 else 0), "/g\n", ""⟩, ByteArray.empty,
    ByteArray.empty, []⟩

/-- The caller sets one of the two variables, the program of the other is found, the tests known to
pass are run, and the style checks behind them fail: each tool saw its environment, and that of the
caller is back. -/
theorem runSuiteGate_environments_small :
    let report : Reporter World := MarkerLog.report (fun w => w.disk.clock)
      (fun line w => .ok (w.print line)) fun text w => w.warn text
    let s : Suite := { config := { suite := { dir := ⟨"/s"⟩ } } }
    let w := World.start ((Disk.empty ⟨10⟩).plant []
      [⟨⟨"s/eclipse/eclipse"⟩, .file ByteArray.empty true none⟩]) [] ⟨"/tmp"⟩ (.ofList [("JDT", "j")])
    let selection := some (Selection.ofList [Tag.taggedUnittest.text, Tag.style.text])
    let common := [("ECLIPSE_EXE", "/s/eclipse/eclipse"), ("JDT", "j")]
    let tagged := [("ECLIPSE_EXE", "/s/eclipse/eclipse"),
      ("ENABLE_CPYTHON_TAGGED_UNITTESTS", "true"), ("ENABLE_THREADED_GRAALPYTEST", "true"),
      ("GRAAL_PYTHONHOME", "/s/graalpython"), ("JDT", "j")]
    report.IsPassive ∧
      ∃ failure w',
        (runSuiteGate smallTools s selection report).run.run w = (.ok (.error failure), w') ∧
        w'.calls.map (fun c => (c.invocation.program, c.environment.toList)) =
          [("mx", tagged), ("mx", tagged), ("/g/bin/graalpython", tagged), ("git", common)] ∧
        w'.environment = w.environment := by
  intro report s w selection common tagged
  have hreport : report.IsPassive :=
    Reporter.isPassive_markers (fun _ _ _ h => by cases h; exact ⟨rfl, rfl⟩) fun _ _ => ⟨rfl, rfl⟩
  have hback : ∀ outcome w',
      (runSuiteGate smallTools s selection report).run.run w = (.ok outcome, w') →
        w'.environment = w.environment := fun outcome w' hrun => by
    have hleft := (runSuiteGate_environments smallTools s hreport selection w).2.2 outcome
    rw [hrun] at hleft
    exact hleft rfl
  obtain ⟨hfailed, hcalls⟩ :
      ((runSuiteGate smallTools s selection report).run.run w).1.map Except.isOk = .ok false ∧
        ((runSuiteGate smallTools s selection report).run.run w).2.calls.map
          (fun c => (c.invocation.program, c.environment.toList)) =
            [("mx", tagged), ("mx", tagged), ("/g/bin/graalpython", tagged), ("git", common)] := by
    decide +kernel
  -- from here on nothing but the shape of the result counts
  generalize (runSuiteGate smallTools s selection report).run.run w = after
    at hback hfailed hcalls ⊢
  obtain ⟨e | failure | summary, w'⟩ := after
  · simp [Except.map] at hfailed
  · exact ⟨hreport, failure, w', rfl, hcalls, hback _ w' rfl⟩
  · simp [Except.map, Except.isOk, Except.toBool] at hfailed

end Gate

end SuiteGate
