import SuiteGate.World
/-!
# The build tool

The build tool of a suite (`BuildTool`): its program, the suite directory in which it runs, the
global options and the additional suites that precede each command, and the overrides of its
environment.  Every command is an invocation of the program (`BuildTool.invocation`); the rest
runs such invocations and reads their output.
-/

namespace SuiteGate

/-- The build tool of a suite. -/
structure BuildTool where
  program : String
  suiteDir : Path
  globalArgs : List String := []
  dynamicImports : List String := []
  overrides : Overrides := Overrides.empty

namespace BuildTool

/-- With more suites loaded. -/
def withDynamicImports (t : BuildTool) (imports : List String) : BuildTool :=
  { t with dynamicImports := t.dynamicImports ++ imports }

/-- With more global options. -/
def withGlobalArgs (t : BuildTool) (args : List String) : BuildTool :=
  { t with globalArgs := t.globalArgs ++ args }

/-- With more overrides, which win. -/
def withEnv (t : BuildTool) (o : Overrides) : BuildTool :=
  { t with overrides := t.overrides.extend o }

/-- The option that loads the additional suites. -/
def importArgs (t : BuildTool) : List String :=
  if t.dynamicImports.isEmpty then []
  else ["--dynamicimports", Text.join "," t.dynamicImports]

/-- The invocation with the given arguments. -/
def invocation (t : BuildTool) (args : List String) : Invocation :=
  (((Invocation.of t.program).inDir t.suiteDir).extendEnv t.overrides).withArgs
    (t.globalArgs ++ t.importArgs ++ args)

/-- Runs the tool with output on the terminal. -/
def run (runner : Runner) (t : BuildTool) (args : List String) : Op ToolOutput :=
  runner.runChecked (t.invocation args)

/-- Runs the tool and keeps its output; any exit code will do. -/
def capture (runner : Runner) (t : BuildTool) (args : List String) : Op ToolOutput :=
  runner.run (t.invocation args).captured

/-- Runs a command of the tool. -/
def command (runner : Runner) (t : BuildTool) (name : String) (args : List String) :
    Op ToolOutput :=
  t.run runner (name :: args)

/-- The option that restricts a command to some dependencies; no dependencies are no
restriction. -/
def dependencyArgs (dependencies : List String) : List String :=
  if dependencies.isEmpty then [] else ["--dependencies", Text.join "," dependencies]

/-- Builds some dependencies, or everything if none are given. -/
def build (runner : Runner) (t : BuildTool) (dependencies : List String) : Op Unit := do
  discard <| t.run runner ("build" :: dependencyArgs dependencies)

/-- Cleans some dependencies, or everything if none are given. -/
def clean (runner : Runner) (t : BuildTool) (dependencies : List String) : Op Unit := do
  discard <| t.run runner ("clean" :: dependencyArgs dependencies)

/-- Runs a command and takes the last line of its output. -/
def lastLineOf (runner : Runner) (t : BuildTool) (args : List String) (missing : String) :
    Op String := do
  let i := (t.invocation args).captured
  let output ← runner.runChecked i
  match output.lastLine? with
  | some line => pure line
  | none => Op.fail (.tool (.unexpectedOutput i.commandLine missing))

/-- The home of the GraalVM that the tool builds. -/
def graalvmHome (runner : Runner) (t : BuildTool) : Op Path := do
  return ⟨← t.lastLineOf runner ["graalvm-home"] "no GraalVM home printed"⟩

/-- The class path of some distributions. -/
def classpath (runner : Runner) (t : BuildTool) (distributions : List String) : Op String :=
  t.lastLineOf runner ["classpath", Text.join "," distributions] "empty classpath"

/-- The output directory of a distribution. -/
def distributionOutput (runner : Runner) (t : BuildTool) (distribution : String) : Op Path := do
  return ⟨← t.lastLineOf runner ["paths", "--output", distribution]
    ("no output path for " ++ distribution)⟩

/-- Runs the JUnit tests. -/
def unittest (runner : Runner) (t : BuildTool) (args : List String) : Op Unit := do
  discard <| t.command runner "unittest" args

end BuildTool

end SuiteGate
