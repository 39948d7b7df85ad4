import SuiteGate.Proofs.Operations
import SuiteGate.Tools.Repository
/-!
# Runs of the version control program

Each command of `Git` runs one program and fails if that does; what it gives is read off the output.
-/

namespace SuiteGate.Git

variable (runner : Runner) (g : Git) (tree : Path) (w : World)

/-- The question for the commit at the head. -/
def tipQuery : Invocation :=
  (g.invocation tree ["rev-parse", "HEAD"]).captured

/-- The question for the parents of the commit at the head. -/
def parentsQuery : Invocation :=
  (g.invocation tree ["show", "--pretty=format:%P", "-s", "HEAD"]).captured

/-- The command that takes over the commits of the remote repository. -/
def pullCommand : Invocation :=
  g.invocation tree ["pull"]

/-- The command that checks out a revision. -/
def updateCommand (revision : String) : Invocation :=
  g.invocation tree ["checkout", "--quiet", revision]

@[simp]
theorem args_tipQuery : (g.tipQuery tree).args = ["rev-parse", "HEAD"] := rfl

@[simp]
theorem args_parentsQuery :
    (g.parentsQuery tree).args = ["show", "--pretty=format:%P", "-s", "HEAD"] := rfl

@[simp]
theorem args_pullCommand : (g.pullCommand tree).args = ["pull"] := rfl

@[simp]
theorem args_updateCommand (revision : String) :
    (g.updateCommand tree revision).args = ["checkout", "--quiet", revision] := rfl

section

variable {g : Git} {tree : Path} {as bs : List String}

theorem invocation_inj : g.invocation tree as = g.invocation tree bs ↔ as = bs := by
  simp [invocation, Invocation.withArgs]

/-- A command whose output is kept is none with output on the terminal. -/
theorem captured_ne_invocation : (g.invocation tree as).captured ≠ g.invocation tree bs :=
  fun h => nomatch congrArg Invocation.output h

theorem eq_of_updateCommand_eq {a b : String}
    (h : g.updateCommand tree a = g.updateCommand tree b) : a = b := by
  simpa using invocation_inj.mp h

end

theorem run_command (args : List String) :
    (g.command runner tree args).run.run w =
      (((runner.answer (g.invocation tree args) w).map fun _ => ()).mapError .error,
        runner.after (g.invocation tree args) w) := by
  rw [command, Op.run_discard, Runner.run_runChecked]
  cases runner.answer (g.invocation tree args) w <;> rfl

theorem run_output (args : List String) :
    (g.output runner tree args).run.run w =
      (((runner.answer (g.invocation tree args).captured w).map ToolOutput.stdout).mapError .error,
        runner.after (g.invocation tree args).captured w) := by
  rw [output, Op.run_bind, Runner.run_runChecked]
  cases runner.answer (g.invocation tree args).captured w <;> rfl

theorem run_pull :
    (g.pull runner tree).run.run w =
      (((runner.answer (g.pullCommand tree) w).map fun _ => ()).mapError .error,
        runner.after (g.pullCommand tree) w) :=
  run_command runner g tree w _

theorem run_update (revision : String) :
    (g.update runner tree revision).run.run w =
      (((runner.answer (g.updateCommand tree revision) w).map fun _ => ()).mapError .error,
        runner.after (g.updateCommand tree revision) w) :=
  run_command runner g tree w _

theorem run_tip :
    (g.tip runner tree).run.run w =
      (((runner.answer (g.tipQuery tree) w).map fun o => Text.trim o.stdout).mapError .error,
        runner.after (g.tipQuery tree) w) := by
  rw [tip, Op.run_bind, run_output, ← tipQuery]
  cases runner.answer (g.tipQuery tree) w <;> rfl

theorem run_parents :
    (g.parents runner tree).run.run w =
      (((runner.answer (g.parentsQuery tree) w).map fun o => Text.words o.stdout).mapError .error,
        runner.after (g.parentsQuery tree) w) := by
  rw [parents, Op.run_bind, run_output, ← parentsQuery]
  cases runner.answer (g.parentsQuery tree) w <;> rfl

end SuiteGate.Git
