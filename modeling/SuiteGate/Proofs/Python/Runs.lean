import SuiteGate.Proofs.Operations
import SuiteGate.Python.Run
/-!
# The tools of a Python run

A Python run asks the build tool for the class path and then starts the launcher; nothing else that
it does changes the disk (`Python.runs_run`).
-/

namespace SuiteGate

namespace BuildTool

/-- An invocation asks the build tool for a class path. -/
def AsksClasspath (t : BuildTool) (i : Invocation) : Prop :=
  ∃ dists : List String, i = (t.invocation ["classpath", Text.join "," dists]).captured

theorem runs_classpath (runner : Runner) (t : BuildTool) (dists : List String) :
    (t.classpath runner dists).Runs runner [t.AsksClasspath] fun _ => True := by
  refine Op.Runs.bind (t := [t.AsksClasspath]) (u := []) (.runChecked ⟨dists, rfl⟩)
    fun output _ => ?_
  split
  · exact .pure trivial
  · exact .fail _

end BuildTool

namespace Python

/-- An invocation starts the launcher for a program with some arguments. -/
structure Launches (s : Suite) (args : List String) (options : RunOptions) (i : Invocation) :
    Prop where
  program : i.program = s.config.python.java
  cwd : i.cwd = options.cwd
  args : launcherArgs s (takeDistributions (splitVmArgs args).2).1 options.javaStacktrace <:+ i.args

theorem runs_launcherOverrides (runner : Runner) (s : Suite) (o : Overrides) :
    (launcherOverrides s o).Runs runner [] fun _ => True := by
  refine Op.Runs.bind (t := []) (u := []) (.getVariable _) fun home _ => ?_
  split
  · exact .pure trivial
  · exact .pure trivial

theorem runs_checkVm (runner : Runner) (s : Suite) (o : Overrides) :
    (checkVm s o).Runs runner [] fun _ => True := by
  refine Op.Runs.bind (t := []) (u := []) (.getVariable _) fun request _ => ?_
  simp only
  split
  · exact .pure trivial
  · split
    · exact .fail _
    · split
      · exact .warn _
      · exact .pure trivial

theorem runs_assemble (runner : Runner) (s : Suite) (args : List String) (options : RunOptions) :
    (assemble runner s args options).Runs runner [s.buildTool.AsksClasspath]
      (Launches s args options) := by
  refine Op.Runs.bind (t := []) (u := [_]) (runs_launcherOverrides runner s _) fun o _ => ?_
  refine Op.Runs.bind (t := []) (u := [_]) (runs_checkVm runner s o) fun _ _ => ?_
  refine Op.Runs.bind (t := [_]) (u := []) (BuildTool.runs_classpath runner _ _) fun _ _ => ?_
  exact .pure ⟨rfl, rfl, List.suffix_append _ _⟩

/-- **A Python run runs two tools:** the class path is asked for, then the launcher is started. -/
theorem runs_run (runner : Runner) (s : Suite) (args : List String) (options : RunOptions) :
    (run runner s args options).Runs runner [s.buildTool.AsksClasspath, Launches s args options]
      fun _ => True :=
  Op.Runs.bind (t := [_]) (u := [_]) (runs_assemble runner s args options) fun _ hi =>
    .runChecked hi

end Python

end SuiteGate
