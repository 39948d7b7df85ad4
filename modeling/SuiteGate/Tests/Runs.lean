import SuiteGate.Python.Run
import SuiteGate.Tests.Discovery
/-!
# Test runs

The runs of tests: the discovered ones with a given launcher (`runTests`), those of the virtual
machine (`runJunit`), those of the standard library (`runStdlibTests`) and the renewal of the list
of tests known to pass (`retag`).
-/

namespace SuiteGate.Tests

/-- The parameters of a run of discovered tests. -/
structure TestRun where
  /-- The arguments of the launcher before the script that runs the tests. -/
  args : List String := []
  paths : List Path := []
  /-- Whether tests that a native image cannot run are left out. -/
  aotCompatible : Bool := true
  exclude : List String := []

/-- The arguments of a run of tests that were discovered. -/
def TestRun.launcherArgs (s : Suite) (r : TestRun) (files : List Path) : List String :=
  ["--experimental-options=true", "--python.CatchAllExceptions=true"] ++ r.args
    ++ [s.config.unittestDriver.text, "-v"] ++ files.map Path.text

/-- The names of files that a run leaves out. -/
def TestRun.excluded (s : Suite) (r : TestRun) : List String :=
  r.exclude ++ if r.aotCompatible then s.config.unittest.aotIncompatible else []

/-- Runs discovered tests with a launcher. -/
def runTests (runner : Runner) (s : Suite) (launcher : Path) (r : TestRun) : Op Unit := do
  let files ← Op.ask fun d cwd =>
    discover d cwd s.config.unittestRoot r.paths (r.excluded s)
  discard <| runner.runChecked
    ((Invocation.of launcher.text).withArgs (r.launcherArgs s files))

/-- The compiler settings of the tests of the virtual machine. -/
def junitFlags : List String :=
  ["-Dgraal.TruffleCompilationExceptionsAreFatal=false",
   "-Dgraal.TruffleCompilationExceptionsArePrinted=true",
   "-Dgraal.TrufflePerformanceWarningsAreFatal=false"]

/-- The option that chooses tests by a pattern. -/
def regexOption : String := "--regex"

/-- The pattern of the tests that are run when none is given. -/
def defaultRegex : String := "(graal\\.python)|(com\\.oracle\\.truffle\\.tck\\.tests)"

/-- The arguments of a run of the tests of the virtual machine. -/
def junitArgs (args : List String) : List String :=
  junitFlags ++ (if args.contains regexOption then [] else [regexOption, defaultRegex]) ++ args

/-- Runs the tests of the virtual machine; the home of the launcher is the support
distribution. -/
def runJunit (runner : Runner) (s : Suite) (args : List String) : Op Unit := do
  let home ← s.buildTool.distributionOutput runner s.config.python.supportDistribution
  let tool := s.buildTool.withEnv (Overrides.empty.set Python.homeVariable home.text)
  tool.unittest runner (junitArgs args)

/-- The directory of the script that runs the tests. -/
def driverDir (s : Suite) : Path :=
  s.config.unittestDriver.parent?.getD s.dir

/-- Runs the tests of the standard library. -/
def runStdlibTests (runner : Runner) (s : Suite) (args : List String) : Op Unit := do
  let script := (driverDir s).child "python_unittests.py"
  discard <| Python.run runner s ([script.text, "-v"] ++ args) .interactive

/-- Renews the list of tests that are known to pass. -/
def retag (runner : Runner) (s : Suite) (args : List String) : Op Unit := do
  let script := s.config.unittestRoot.child "test_tagged_unittests.py"
  let options := { Python.RunOptions.interactive with
    overrides := Overrides.empty.set "ENABLE_CPYTHON_TAGGED_UNITTESTS" "true" }
  discard <| Python.run runner s (script.text :: args) options

end SuiteGate.Tests
