import Mathlib.Tactic.Common
import SuiteGate.Proofs.Environment.Overrides
import SuiteGate.Proofs.Python.Runs
import SuiteGate.Proofs.Tools.BuildTool
/-!
# Assembling launches

Whether and how a Python launch is assembled depends on the environment of the process, the
overrides of the caller and the answer of the build tool; `assemble_cases` lists all ways that it
can end.  From this come the check for the compiler (`lacksCompiler_iff`) and, in other
modules, the arguments and the environment of the virtual machine.

The check reads the variable that asks for the compiler where the virtual machine will find it,
with one exception: a caller's request to remove the variable does not count for the check
(`removal_not_seen`).
-/

namespace SuiteGate

namespace Python

/-! ### The overrides of a launch -/

/-- The overrides of a launch from an environment: those of the caller, and the home of the
launcher in the suite unless the caller or the environment sets it. -/
def launchOverrides (s : Suite) (o : Overrides) (e : Environment) : Overrides :=
  if (o.get? homeVariable).isSome || e[homeVariable]?.isSome then o
  else (Overrides.empty.set homeVariable s.config.devPythonHome.text).extend o

theorem run_launcherOverrides (s : Suite) (o : Overrides) (w : World) :
    (launcherOverrides s o).run.run w = (.ok (launchOverrides s o w.environment), w) := by
  have hvariable : (Op.getVariable homeVariable).run.run w =
      (.ok w.environment[homeVariable]?, w) := rfl
  rw [launcherOverrides, Op.run_bind, hvariable, launchOverrides]
  simp only
  split <;> rfl

theorem getElem?_launchOverrides_of_ne {s : Suite} {o : Overrides} {e : Environment} {k : String}
    (hk : k ≠ homeVariable) : (launchOverrides s o e).changes[k]? = o.changes[k]? := by
  rw [launchOverrides]
  split
  · rfl
  · rw [Overrides.getElem?_extend, Overrides.getElem?_set, if_neg hk.symm, Overrides.getElem?_empty,
      Option.or_none]

/-- **The home of the launcher** where the virtual machine runs: what the caller makes of it, else
what it is in the process, else the one in the suite. -/
theorem getElem?_update_launchOverrides (s : Suite) (o : Overrides) (e : Environment) :
    ((launchOverrides s o e).update e)[homeVariable]? =
      (o.changes[homeVariable]?.map Change.value?).getD
        (e[homeVariable]?.or (some s.config.devPythonHome.text)) := by
  rw [Overrides.getElem?_update, launchOverrides, Overrides.get?]
  -- where the caller removes the variable, the default may be added, and the removal wins over it
  rcases hchange : o.changes[homeVariable]? with - | (v | -)
  · cases he : e[homeVariable]? <;> simp [hchange, Overrides.getElem?_extend, Change.value?]
  · simp [hchange, Change.value?]
  · cases he : e[homeVariable]? <;> simp [hchange, Overrides.getElem?_extend, Change.value?]

theorem getElem?_update_launchOverrides_of_ne {s : Suite} {o : Overrides} {e : Environment}
    {k : String} (hk : k ≠ homeVariable) :
    ((launchOverrides s o e).update e)[k]? = (o.update e)[k]? := by
  rw [Overrides.getElem?_update, Overrides.getElem?_update, getElem?_launchOverrides_of_ne hk]

/-! ### The check for the compiler -/

/-- The compiler is not there and the check finds that it is asked for. -/
def LacksCompiler (s : Suite) (o : Overrides) (e : Environment) : Prop :=
  s.config.suite.jvmci = false ∧
    (o.get? mustUseGraalVariable).or e[mustUseGraalVariable]? = some "1"

instance (s : Suite) (o : Overrides) (e : Environment) : Decidable (LacksCompiler s o e) :=
  inferInstanceAs (Decidable (_ ∧ _))

/-- **The check** fails if the compiler is lacking, and otherwise at most logs a warning. -/
theorem run_checkVm (s : Suite) (o : Overrides) (w : World) :
    (LacksCompiler s o w.environment ∧ (checkVm s o).run.run w =
        (.error (.error (.other "graal compiler was not found")), w)) ∨
      ¬ LacksCompiler s o w.environment ∧ ∃ ws, (checkVm s o).run.run w =
        (.ok (), { w with warnings := ws }) := by
  have hvariable : (Op.getVariable mustUseGraalVariable).run.run w =
      (.ok w.environment[mustUseGraalVariable]?, w) := rfl
  rw [checkVm, Op.run_bind, hvariable]
  generalize hrequest : (o.get? mustUseGraalVariable).or w.environment[mustUseGraalVariable]? = r
  simp only [LacksCompiler, hrequest]
  cases hjvmci : s.config.suite.jvmci with
  | true => exact .inr ⟨by simp, w.warnings, rfl⟩
  | false =>
    by_cases hmust : r = some "1"
    · exact .inl ⟨⟨rfl, hmust⟩, by simp only [hmust]; rfl⟩
    · refine .inr ⟨fun h => hmust h.2, ?_⟩
      simp only [hmust, Bool.false_eq_true, if_false]
      split
      · exact ⟨_, rfl⟩
      · exact ⟨w.warnings, rfl⟩

theorem LacksCompiler.launchOverrides_iff {s : Suite} {o : Overrides} {e : Environment} :
    LacksCompiler s (launchOverrides s o e) e ↔ LacksCompiler s o e := by
  rw [LacksCompiler, LacksCompiler, Overrides.get?, Overrides.get?,
    getElem?_launchOverrides_of_ne (by decide)]

/-! ### All ways to end -/

/-- The query for the class path of a launch. -/
def launchQuery (s : Suite) (args : List String) (options : RunOptions) : Invocation :=
  s.buildTool.classpathQuery (s.config.python.distributions
    ++ (takeDistributions (splitVmArgs args).2).2 ++ options.extraDistributions)

/-- The invocation of a launch with a class path and with overrides. -/
def launchOf (s : Suite) (args : List String) (options : RunOptions) (o : Overrides)
    (classpath : String) : Invocation where
  program := s.config.python.java
  args := vmArgs s (splitVmArgs args).1 classpath options.extraVmArgs
    ++ launcherArgs s (takeDistributions (splitVmArgs args).2).1 options.javaStacktrace
  cwd := options.cwd
  overrides := o
  output := .inherit

section

variable {runner : Runner} {s : Suite} {args : List String} {options : RunOptions} {w : World}

/-- **Assembling a launch** fails in the check for the compiler, or it asks for the class path and
returns an invocation with the answer, if there is one. -/
theorem run_assemble (runner : Runner) (s : Suite) (args : List String) (options : RunOptions)
    (w : World) :
    (LacksCompiler s options.overrides w.environment ∧
      (assemble runner s args options).run.run w =
        (.error (.error (.other "graal compiler was not found")), w)) ∨
    ¬ LacksCompiler s options.overrides w.environment ∧ ∃ ws,
      (assemble runner s args options).run.run w =
        (((runner.lastLineAnswer (launchQuery s args options) "empty classpath"
            { w with warnings := ws }).map
              (launchOf s args options (launchOverrides s options.overrides w.environment))).mapError
                .error,
          runner.after (launchQuery s args options) { w with warnings := ws }) := by
  -- the check is made with the overrides of the launch, and reads no variable that these add
  rw [assemble, Op.run_bind, run_launcherOverrides, ← LacksCompiler.launchOverrides_iff]
  simp only
  rw [Op.run_bind]
  obtain ⟨hlacks, hcheck⟩ | ⟨hlacks, ws, hcheck⟩ :=
    run_checkVm s (launchOverrides s options.overrides w.environment) w
  · exact .inl ⟨hlacks, by rw [hcheck]⟩
  · refine .inr ⟨hlacks, ws, ?_⟩
    rw [hcheck]
    simp only
    rw [Op.run_bind, BuildTool.run_classpath, ← launchQuery]
    cases runner.lastLineAnswer (launchQuery s args options) "empty classpath"
        { w with warnings := ws } with
    | error e => rfl
    | ok classpath =>
      simp only [Except.map, Except.mapError, Op.run_pure, launchOf, Invocation.extendEnv,
        Invocation.withArgs, Invocation.of, Overrides.empty_extend, List.nil_append]

/-- All ways in which a launch is assembled, or is not. -/
theorem assemble_cases (runner : Runner) (s : Suite) (args : List String) (options : RunOptions)
    (w : World) :
    (LacksCompiler s options.overrides w.environment ∧
      (assemble runner s args options).run.run w =
        (.error (.error (.other "graal compiler was not found")), w)) ∨
    ¬ LacksCompiler s options.overrides w.environment ∧ ∃ ws,
      (∃ e, (assemble runner s args options).run.run w = (.error (.error (.tool e)),
        runner.after (launchQuery s args options) { w with warnings := ws })) ∨
      ∃ output classpath,
        runner.answer (launchQuery s args options) { w with warnings := ws } = .ok output ∧
        output.lastLine? = some classpath ∧
        (assemble runner s args options).run.run w =
          (.ok (launchOf s args options (launchOverrides s options.overrides w.environment)
              classpath),
            runner.after (launchQuery s args options) { w with warnings := ws }) := by
  refine (run_assemble runner s args options w).imp_right ?_
  rintro ⟨hlacks, ws, hrun⟩
  refine ⟨hlacks, ws, ?_⟩
  rw [hrun]
  rcases hanswer : runner.lastLineAnswer (launchQuery s args options) "empty classpath"
      { w with warnings := ws } with e | classpath
  · obtain ⟨e, rfl⟩ := Runner.exists_tool_of_lastLineAnswer hanswer
    exact .inl ⟨e, rfl⟩
  · obtain ⟨output, houtput, hline⟩ := Runner.lastLineAnswer_eq_ok_iff.mp hanswer
    exact .inr ⟨output, classpath, houtput, hline, rfl⟩

theorem assemble_of_lacksCompiler (h : LacksCompiler s options.overrides w.environment) :
    (assemble runner s args options).run.run w =
      (.error (.error (.other "graal compiler was not found")), w) := by
  obtain ⟨-, hrun⟩ | ⟨hnot, -⟩ := assemble_cases runner s args options w
  · exact hrun
  · exact absurd h hnot

/-- An assembled launch, and the one tool that was run for it. -/
theorem exists_launch_of_assemble {i : Invocation} {w' : World}
    (h : (assemble runner s args options).run.run w = (.ok i, w')) :
    ∃ ws output classpath,
      runner.answer (launchQuery s args options) { w with warnings := ws } = .ok output ∧
      output.lastLine? = some classpath ∧
      i = launchOf s args options (launchOverrides s options.overrides w.environment) classpath ∧
      w' = runner.after (launchQuery s args options) { w with warnings := ws } := by
  obtain ⟨-, hrun⟩ | ⟨-, ws, ⟨e, hrun⟩ | ⟨output, classpath, hanswer, hline, hrun⟩⟩ :=
    assemble_cases runner s args options w
  · cases hrun.symm.trans h
  · cases hrun.symm.trans h
  · obtain ⟨hi, hw⟩ := Prod.mk.inj (hrun.symm.trans h)
    exact ⟨ws, output, classpath, hanswer, hline, (Except.ok.inj hi).symm, hw.symm⟩

end

/-! ### How a run ends -/

/-- How a Python run ends, and in which world: it is refused without a tool, or it ends like the
query for the class path if that fails, and otherwise like the virtual machine. -/
inductive Ends (runner : Runner) (s : Suite) (args : List String) (options : RunOptions)
    (w : World) : Except Error ToolOutput → World → Prop
  | refused : LacksCompiler s options.overrides w.environment →
    Ends runner s args options w (.error (.other "graal compiler was not found")) w
  | query {ws : List String} {e : Error} :
    runner.lastLineAnswer (launchQuery s args options) "empty classpath" { w with warnings := ws } =
      .error e →
    Ends runner s args options w (.error e)
      (runner.after (launchQuery s args options) { w with warnings := ws })
  | launch {ws : List String} {classpath : String} {i : Invocation} {v : World} :
    runner.lastLineAnswer (launchQuery s args options) "empty classpath" { w with warnings := ws } =
      .ok classpath →
    i = launchOf s args options (launchOverrides s options.overrides w.environment) classpath →
    v = runner.after (launchQuery s args options) { w with warnings := ws } →
    Ends runner s args options w (runner.answer i v) (runner.after i v)

/-- **A Python run ends** with the error of the step that failed, or with the output of the virtual
machine. -/
theorem exists_ends_run (runner : Runner) (s : Suite) (args : List String) (options : RunOptions)
    (w : World) :
    ∃ r u, Ends runner s args options w r u ∧
      (run runner s args options).run.run w = (r.mapError .error, u) := by
  rw [run, Op.run_bind]
  obtain ⟨hlacks, hrun⟩ | ⟨-, ws, hrun⟩ := run_assemble runner s args options w
  · exact ⟨_, _, .refused hlacks, by rw [hrun]; rfl⟩
  · rw [hrun]
    rcases hanswer : runner.lastLineAnswer (launchQuery s args options) "empty classpath"
        { w with warnings := ws } with e | classpath
    · exact ⟨_, _, .query hanswer, rfl⟩
    · simp only [Except.map, Except.mapError, Runner.run_runChecked]
      exact ⟨_, _, .launch hanswer rfl rfl, rfl⟩

/-! ### The programs that are run -/

/-- The programs run for a Python run so far: the build tool, asked for the class path, and then
the virtual machine, both in the environment of the process. -/
inductive RunCalls (s : Suite) (args : List String) (options : RunOptions) (e : Environment) :
    List Call → Prop
  | none : RunCalls s args options e []
  | query {query : Call} : query.invocation = launchQuery s args options →
    RunCalls s args options e [query]
  | launch {query launch : Call} {classpath : String} :
    query.invocation = launchQuery s args options → launch.environment = e →
    launch.invocation =
      launchOf s args options (launchOverrides s options.overrides e) classpath →
    RunCalls s args options e [query, launch]

section

variable {s : Suite} {args : List String} {options : RunOptions} {e : Environment}
  {cs : List Call} {c : Call}

theorem RunCalls.length_le (h : RunCalls s args options e cs) : cs.length ≤ 2 := by
  cases h <;> simp

theorem RunCalls.asksClasspath (h : RunCalls s args options e cs) (hc : c ∈ cs[0]?) :
    s.buildTool.AsksClasspath c.invocation := by
  cases h with
  | none => cases hc
  | query hquery | launch hquery =>
    obtain rfl := Option.some.inj hc
    exact ⟨_, hquery⟩

theorem RunCalls.exists_launchOf (h : RunCalls s args options e cs) (hc : c ∈ cs[1]?) :
    c.environment = e ∧ ∃ classpath, c.invocation =
      launchOf s args options (launchOverrides s options.overrides e) classpath := by
  cases h with
  | none | query => cases hc
  | launch _ henv hlaunch =>
    obtain rfl := Option.some.inj hc
    exact ⟨henv, _, hlaunch⟩

/-- A Python run runs nothing else. -/
theorem RunCalls.asks_or_launches (h : RunCalls s args options e cs) (hc : c ∈ cs) :
    s.buildTool.AsksClasspath c.invocation ∨ Launches s args options c.invocation := by
  obtain ⟨i, hi⟩ := List.mem_iff_getElem?.mp hc
  have hlt : i < 2 := (List.getElem?_eq_some_iff.mp hi).1.trans_le h.length_le
  obtain rfl | rfl : i = 0 ∨ i = 1 := by omega
  · exact .inl (h.asksClasspath hi)
  · obtain ⟨-, classpath, hlaunch⟩ := h.exists_launchOf hi
    rw [hlaunch]
    exact .inr ⟨rfl, rfl, List.suffix_append _ _⟩

end

/-- **A Python run** that ends with a result has started the virtual machine. -/
theorem calls_run (runner : Runner) (s : Suite) (args : List String) (options : RunOptions)
    (w : World) :
    ∃ cs, ((run runner s args options).run.run w).2.calls = w.calls ++ cs ∧
      RunCalls s args options w.environment cs ∧
      ∀ output, ((run runner s args options).run.run w).1 = .ok output → cs.length = 2 := by
  obtain ⟨r, u, hends, hrun⟩ := exists_ends_run runner s args options w
  rw [hrun]
  cases hends with
  | refused hlacks => exact ⟨[], (List.append_nil _).symm, .none, by simp [Except.mapError]⟩
  | query hanswer => exact ⟨[_], rfl, .query rfl, by simp [Except.mapError]⟩
  | launch hanswer hi hv =>
    subst hi hv
    exact ⟨[_, _], List.append_assoc .., .launch rfl rfl rfl, fun _ _ => rfl⟩

/-! ### The check and the environment of the launch -/

/-- The check reads the environment of the launch, unless the caller removes the variable. -/
theorem lacksCompiler_iff {s : Suite} {o : Overrides} {e : Environment} :
    LacksCompiler s o e ↔ s.config.suite.jvmci = false ∧
      (if o.changes[mustUseGraalVariable]? = some .remove then e
        else o.update e)[mustUseGraalVariable]? = some "1" := by
  rw [LacksCompiler, Overrides.get?]
  refine and_congr_right fun _ => ?_
  rcases hchange : o.changes[mustUseGraalVariable]? with - | (v | -)
  · simp [Overrides.getElem?_update, hchange]
  · simp [Overrides.getElem?_update, hchange, Change.value?]
  · simp [Change.value?]

/-- **A launch is refused** for want of the compiler exactly if the compiler is not there and the
variable that asks for it is `1` in the environment of the launch or, if the caller removes the
variable, in that of the process.  Nothing has happened then, and no tool was run. -/
theorem assemble_refused_iff (runner : Runner) (s : Suite) (args : List String)
    (options : RunOptions) (w : World) :
    (((assemble runner s args options).run.run w).1 =
        .error (.error (.other "graal compiler was not found")) ↔
      s.config.suite.jvmci = false ∧
        (if options.overrides.changes["GRAALPYTHON_MUST_USE_GRAAL"]? = some .remove
          then w.environment
          else options.overrides.update w.environment)["GRAALPYTHON_MUST_USE_GRAAL"]? =
            some "1") ∧
    (((assemble runner s args options).run.run w).1 =
        .error (.error (.other "graal compiler was not found")) →
      ((assemble runner s args options).run.run w).2 = w) := by
  have hiff := @lacksCompiler_iff s options.overrides w.environment
  rw [mustUseGraalVariable] at hiff
  rw [← hiff]
  obtain ⟨hlacks, hrun⟩ | ⟨hlacks, ws, ⟨e, hrun⟩ | ⟨output, classpath, -, -, hrun⟩⟩ :=
    assemble_cases runner s args options w
  · rw [hrun]
    exact ⟨iff_of_true rfl hlacks, fun _ => rfl⟩
  · -- an error of the query for the class path is another one
    rw [hrun]
    exact ⟨iff_of_false (by simp) hlacks, by simp⟩
  · rw [hrun]
    exact ⟨iff_of_false (by simp) hlacks, by simp⟩

/-- A process that is told to use the compiler. -/
def commandedWorld : World :=
  World.start (Disk.empty ⟨0⟩) [] ⟨"/tmp"⟩
    ((∅ : Environment).insert "GRAALPYTHON_MUST_USE_GRAAL" "1")

/-- **A removal is not seen by the check.**  The virtual machine would not be told to use the
compiler, because the caller removes the variable, and yet the launch is refused. -/
theorem removal_not_seen :
    let s : Suite := { config := {} }
    let options : RunOptions :=
      { overrides := Overrides.empty.remove "GRAALPYTHON_MUST_USE_GRAAL" }
    let launched := options.overrides.update commandedWorld.environment
    launched["GRAALPYTHON_MUST_USE_GRAAL"]? = none ∧
      ∀ runner, ((assemble runner s [] options).run.run commandedWorld).1 =
        .error (.error (.other "graal compiler was not found")) := by
  intro s options launched
  refine ⟨by decide +kernel, fun runner => ?_⟩
  have hlacks : LacksCompiler s options.overrides commandedWorld.environment := by
    decide +kernel
  rw [assemble_of_lacksCompiler hlacks]

end Python

end SuiteGate
