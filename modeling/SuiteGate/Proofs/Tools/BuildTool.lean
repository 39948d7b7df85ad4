import SuiteGate.Proofs.Operations
import SuiteGate.Tools.BuildTool
/-!
# Runs of the build tool

Each command of `BuildTool` runs one program.  It fails if that does, or if the line that it is to
give is missing from the output (`Runner.lastLineAnswer`).
-/

namespace SuiteGate

/-- The last line of the output of a program that has to succeed and to print a line, or the error
with which it does not. -/
def Runner.lastLineAnswer (runner : Runner) (i : Invocation) (missing : String) (w : World) :
    Except Error String :=
  match runner.answer i w with
  | .error e => .error e
  | .ok output =>
    match output.lastLine? with
    | some line => .ok line
    | none => .error (.tool (.unexpectedOutput i.commandLine missing))

theorem Runner.lastLineAnswer_eq_ok_iff {runner : Runner} {i : Invocation} {missing line : String}
    {w : World} :
    runner.lastLineAnswer i missing w = .ok line ↔
      ∃ output, runner.answer i w = .ok output ∧ output.lastLine? = some line := by
  rw [lastLineAnswer]
  cases runner.answer i w with
  | error e => simp
  | ok output => cases hline : output.lastLine? <;> simp [hline]

theorem Runner.exists_tool_of_lastLineAnswer {runner : Runner} {i : Invocation} {missing : String}
    {w : World} {e : Error} (h : runner.lastLineAnswer i missing w = .error e) :
    ∃ t, e = .tool t := by
  rw [lastLineAnswer] at h
  split at h
  · next hanswer =>
    obtain rfl := Except.error.inj h
    exact exists_tool_of_answer hanswer
  · split at h
    · cases h
    · exact ⟨_, (Except.error.inj h).symm⟩

namespace BuildTool

variable (runner : Runner) (t : BuildTool) (w : World)

/-- The command that builds some dependencies. -/
def buildCommand (dependencies : List String) : Invocation :=
  t.invocation ("build" :: dependencyArgs dependencies)

/-- The command that cleans some dependencies. -/
def cleanCommand (dependencies : List String) : Invocation :=
  t.invocation ("clean" :: dependencyArgs dependencies)

/-- The query for the home of the GraalVM. -/
def homeQuery : Invocation :=
  (t.invocation ["graalvm-home"]).captured

/-- The query for the class path of some distributions. -/
def classpathQuery (dists : List String) : Invocation :=
  (t.invocation ["classpath", Text.join "," dists]).captured

theorem run_build (dependencies : List String) :
    (t.build runner dependencies).run.run w =
      (((runner.answer (t.buildCommand dependencies) w).map fun _ => ()).mapError .error,
        runner.after (t.buildCommand dependencies) w) := by
  rw [build, run, Op.run_discard, Runner.run_runChecked, ← buildCommand]
  cases runner.answer (t.buildCommand dependencies) w <;> rfl

theorem run_clean (dependencies : List String) :
    (t.clean runner dependencies).run.run w =
      (((runner.answer (t.cleanCommand dependencies) w).map fun _ => ()).mapError .error,
        runner.after (t.cleanCommand dependencies) w) := by
  rw [clean, run, Op.run_discard, Runner.run_runChecked, ← cleanCommand]
  cases runner.answer (t.cleanCommand dependencies) w <;> rfl

theorem run_lastLineOf (args : List String) (missing : String) :
    (t.lastLineOf runner args missing).run.run w =
      ((runner.lastLineAnswer (t.invocation args).captured missing w).mapError .error,
        runner.after (t.invocation args).captured w) := by
  rw [lastLineOf, Op.run_bind, Runner.run_runChecked, Runner.lastLineAnswer]
  cases runner.answer (t.invocation args).captured w with
  | error e => rfl
  | ok output =>
    simp only [Except.mapError]
    cases output.lastLine? <;> rfl

/-- **Asking for the home** of the GraalVM runs one tool. -/
theorem run_graalvmHome :
    (t.graalvmHome runner).run.run w =
      (((runner.lastLineAnswer t.homeQuery "no GraalVM home printed" w).map Path.mk).mapError .error,
        runner.after t.homeQuery w) := by
  rw [graalvmHome, Op.run_bind, run_lastLineOf, ← homeQuery]
  cases runner.lastLineAnswer t.homeQuery "no GraalVM home printed" w <;> rfl

/-- **Asking for a class path** runs one tool. -/
theorem run_classpath (dists : List String) :
    (t.classpath runner dists).run.run w =
      ((runner.lastLineAnswer (t.classpathQuery dists) "empty classpath" w).mapError .error,
        runner.after (t.classpathQuery dists) w) :=
  run_lastLineOf runner t w _ _

end BuildTool

end SuiteGate
