import SuiteGate.Developer.Programs
import SuiteGate.Gate.Run
import SuiteGate.Gate.Tag
import SuiteGate.GraalVm.Checks
import SuiteGate.Style.Checks
import SuiteGate.Tests.Runs
/-!
# The gate of the suite

The tasks of the suite's gate, in the order in which they run (`suiteTasks`), and a run of it
(`runSuiteGate`): unknown tags are warned about, and the programs for developers that can be found
are in the environment for as long as the run lasts.
-/

namespace SuiteGate.Gate

/-- Whether the path of a directory in which programs are looked for starts at the home directory
of the user. -/
def startsAtHome (p : Path) : Bool :=
  p.components.head? = some (.normal "~")

/-- The directories in which programs are looked for. -/
def programDirs (e : Environment) : List Path :=
  match e["PATH"]? with
  | none => []
  | some dirs =>
    (Text.split ':' dirs).map fun dir =>
      if startsAtHome ⟨dir⟩ then
        (Path.mk (e["HOME"]?.getD "")).join
          ⟨Text.join "/" (((Text.split '/' dir).drop 1).filter (· ≠ ""))⟩
      else ⟨dir⟩

/-- Whether a path leads to a file that can be executed. -/
def isProgram (d : Disk) (cwd : List Name) (p : Path) : Bool :=
  match d.readData cwd p with
  | .ok data => data.executable
  | .error _ => false

/-- Whether there is a program of a name. -/
def hasProgram (d : Disk) (cwd : List Name) (e : Environment) (name : String) : Bool :=
  (programDirs e).any fun dir => isProgram d cwd (dir.child name)

/-- The usual interpreter. -/
def interpreter : String := "python3"

/-- Runs the tests with the usual interpreter. -/
def runWithInterpreter (runner : Runner) (s : Suite) : Op Unit := do
  discard <| runner.runChecked (((Invocation.of interpreter).withArgs
    [s.config.unittestDriver.text, "-v", s.config.unittestRoot.text]).inDir s.dir)

/-- Runs the tests with the usual interpreter if there is one. -/
def runWithInterpreterIfAny (runner : Runner) (s : Suite) : Op Unit := do
  let w ← get
  if hasProgram w.disk w.cwd w.environment interpreter then runWithInterpreter runner s

/-- Builds a launcher and runs tests with it. -/
def testLauncher (runner : Runner) (s : Suite) (l : GraalVm.Launcher) (sandboxed : Bool)
    (run : Tests.TestRun) : Op Unit := do
  Tests.runTests runner s (← l.build runner s sandboxed) run

/-- The overrides for the tests that are known to pass. -/
def taggedOverrides (s : Suite) : Overrides :=
  Overrides.ofPairs
    [("ENABLE_CPYTHON_TAGGED_UNITTESTS", "true"), ("ENABLE_THREADED_GRAALPYTEST", "true"),
     (Python.homeVariable, s.config.devPythonHome.text)]

/-- The run of the tests that are known to pass. -/
def taggedRun (s : Suite) : Tests.TestRun where
  args := ["-v", "--python.WithThread=true", "--python.CAPI=" ++ s.config.capiHome.text]
  paths := [⟨"test_tagged_unittests.py"⟩]

/-- Runs the tests that are known to pass. -/
def runTagged (runner : Runner) (s : Suite) : Op Unit :=
  Op.withEnv (taggedOverrides s) (testLauncher runner s .script false (taggedRun s))

/-- A task with tags. -/
def suiteTask (name : String) (tags : List Tag) (action : Op Unit) : Task World :=
  ⟨name, tags.map Tag.text, action⟩

/-- The tasks of the suite's gate. -/
def suiteTasks (runner : Runner) (s : Suite) : List (Task World) :=
  [suiteTask "GraalPython JUnit" [.junit] (Tests.runJunit runner s ["--verbose"]),
   suiteTask "GraalPython Python unittests" [.unittest] do
     runWithInterpreterIfAny runner s
     testLauncher runner s .script false {},
   suiteTask "GraalPython sandboxed tests" [.unittestSandboxed]
     (testLauncher runner s .script true { args := ["--llvm.managed"] }),
   suiteTask "GraalPython multi-context unittests" [.unittestMultiContext]
     (testLauncher runner s .script false { args := ["-multi-context"] }),
   suiteTask "GraalPython Jython emulation tests" [.unittestJython]
     (testLauncher runner s .script false
       { args := ["--python.EmulateJython"], paths := [⟨"test_interop.py"⟩] }),
   suiteTask "GraalPython Python tests" [.taggedUnittest] (runTagged runner s),
   suiteTask "GraalPython tests on SVM" [.svmUnittest]
     (testLauncher runner s .nativeImage false {}),
   suiteTask "GraalPython sandboxed tests on SVM" [.svmUnittestSandboxed]
     (testLauncher runner s .nativeImage true { args := ["--llvm.managed"] }),
   suiteTask "GraalPython license header update" [.license]
     (Style.checkCopyrights runner s false),
   suiteTask "GraalPython GraalVM shared-library build" [.sharedLibrary, .graalvm]
     (GraalVm.sharedLibraryCheck runner s false),
   suiteTask "GraalPython GraalVM sandboxed shared-library build"
     [.sharedLibrarySandboxed, .graalvmSandboxed] (GraalVm.sharedLibraryCheck runner s true),
   suiteTask "GraalPython GraalVM build" [.svm, .graalvm] (GraalVm.nativeImageCheck runner s),
   suiteTask "GraalPython GraalVM native embedding" [.svm, .graalvm, .nativeImageEmbedder]
     (GraalVm.embeddingCheck runner s),
   suiteTask "GraalPython style" [.style] (Style.styleChecks runner s false)]

/-- The warning about a tag that no task carries. -/
def unknownTagWarning : String := "unknown gate tag, no task carries it"

/-- Runs the suite's gate with a selection, or with the usual one if there is none. -/
def runSuiteGate (runner : Runner) (s : Suite) (selection : Option Selection)
    (report : Reporter World) : Op (Except Failure Summary) := do
  let selection := selection.getD (Selection.defaults s.config.suite.sandboxed)
  selection.unknown.forM fun _ => Op.warn unknownTagWarning
  let w ← get
  let found := Developer.missingOverrides w.disk w.cwd w.environment s.dir
  Op.withEnv found fun w =>
    let (result, w) := run report (fun w => w.disk.clock) selection (suiteTasks runner s) w
    (.ok result, w)

end SuiteGate.Gate
