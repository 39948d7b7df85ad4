import SuiteGate.Files
import SuiteGate.GraalVm.Launcher
import SuiteGate.GraalVm.Samples
/-!
# Checks of a GraalVM

Three checks build a GraalVM and try it out: a program that embeds the shared library is compiled
and run (`sharedLibraryCheck`), the native launcher has to print what is expected of it also from
another place (`nativeImageCheck`), and a program with a context of its own is made into a native
image (`embeddingCheck`).
-/

namespace SuiteGate.GraalVm

/-- Fails unless the output of a program holds a text. -/
def expectText (i : Invocation) (output : ToolOutput) (text : String) : Op Unit :=
  if Text.contains output.combined text then pure ()
  else Op.fail (.tool (.outputMismatch i.commandLine text))

/-- Runs a program whose output has to hold some texts. -/
def runExpecting (runner : Runner) (i : Invocation) (texts : List String) : Op Unit := do
  let output ← runner.runChecked i.teed
  texts.forM (expectText i.teed output)

/-! ### The shared library -/

/-- The directory of the shared library inside a GraalVM. -/
def libraryDir (home : Path) : Path :=
  ((home.child "jre").child "lib").child "polyglot"

/-- The program that embeds the shared library. -/
def embeddedProgram (s : Suite) : Path :=
  s.path ⟨"graalpython-embedded-tool"⟩

/-- The invocation that compiles the program. -/
def compileInvocation (library source program : Path) : Invocation :=
  (Invocation.of "clang").withArgs
    ["-I" ++ library.text, "-L" ++ library.text, source.text, "-o" ++ program.text, "-lpolyglot"]

/-- The invocation of the program. -/
def embeddedInvocation (s : Suite) (library program : Path) : Invocation :=
  ((Invocation.of program.text).set "LD_LIBRARY_PATH" library.text).set "GRAAL_PYTHONHOME"
    s.config.devPythonHome.text

/-- Compiles the program and runs it. -/
def compileAndRun (runner : Runner) (s : Suite) (library source program : Path) : Op Unit := do
  discard <| runner.runChecked (compileInvocation library source program)
  discard <| runner.runChecked (embeddedInvocation s library program)

/-- Removes the program; if it is there and cannot be removed, that is a warning. -/
def removeProgram (program : Path) : Op Unit := do
  match ← Op.attempt (Op.change fun d cwd => d.removeFile cwd program) with
  | .error (.io e) => if !e.isNotFound then Op.warn "could not remove test program"
  | _ => pure ()

/-- Builds a GraalVM with a shared library, and compiles and runs a program that embeds it. -/
def sharedLibraryCheck (runner : Runner) (s : Suite) (sandboxed : Bool) : Op Unit := do
  let launcher ← Launcher.build runner s .sharedLibrary sandboxed
  let library := libraryDir (← homeOf launcher)
  let program := embeddedProgram s
  Op.withTempFile "embedded-polyglot" ".c" (embeddedSource sandboxed) fun source => do
    let result ← Op.attempt (compileAndRun runner s library source program)
    removeProgram program
    Op.ofExcept id result

/-! ### The native image -/

/-- The text that a launcher prints if it starts from a prepared context. -/
def preparedMark : String := "Using preinitialized context."

/-- A home of the standard library that is only named. -/
def patchedLibrary : String := "/foobar"

/-- The options with which a launcher tells what it does. -/
def finestOptions : List String := ["-v", "-S", "--log.python.level=FINEST"]

/-- The invocation that runs the benchmark. -/
def benchmarkInvocation (s : Suite) (launcher : Path) : Invocation :=
  (Invocation.of launcher.text).withArgs
    (finestOptions ++ [(s.path s.config.gate.svmBenchmark).text])

/-- The invocation that prints where a module of the named standard library is. -/
def patchedInvocation (launcher : Path) (property : String) : Invocation :=
  (Invocation.of launcher.text).withArgs
    (finestOptions ++ ["--python.StdLibHome=" ++ patchedLibrary, "-c",
      "import encodings; print(encodings." ++ property ++ ")"])

/-- Where a GraalVM is moved to. -/
def relocated (home : Path) : Path :=
  ⟨home.text ++ "_new"⟩

/-- The invocation of the launcher of a GraalVM that was moved. -/
def relocatedInvocation (home : Path) : Invocation :=
  (Invocation.of (launcherPath home).text).withArgs
    ["--log.python.level=FINE", "-S", "-c", "print(b'abc'.decode('ascii'))"]

/-- Builds the native launcher, checks its output, and checks it again from another place. -/
def nativeImageCheck (runner : Runner) (s : Suite) : Op Unit := do
  let launcher ← Launcher.buildAndRun runner s .nativeImage ["--version"]
  runExpecting runner (benchmarkInvocation s launcher) [s.config.gate.svmBenchmarkPattern]
  ["__path__", "__file__"].forM fun property =>
    runExpecting runner (patchedInvocation launcher property) [patchedLibrary]
  let home ← homeOf launcher
  Op.change fun d cwd => d.rename cwd home (relocated home)
  runExpecting runner (relocatedInvocation (relocated home)) [preparedMark]

/-! ### Embedding -/

/-- The options with which a native image is built. -/
def imageOptions : List String :=
  ["-H:+ReportExceptionStackTraces", "--initialize-at-build-time", "--language:python",
   "HelloWorld"]

/-- Builds a native image of a program with a context of its own and runs it. -/
def embeddingCheck (runner : Runner) (s : Suite) : Op Unit := do
  let launcher ← Launcher.build runner s .script false
  match launcher.parent? with
  | none => Op.fail (.other "launcher has no parent directory")
  | some bin =>
    Op.withTempDir "pymx-embedding" fun dir => do
      let source := dir.child "HelloWorld.java"
      Op.writeText source helloWorldSource
      discard <| runner.runChecked
        (((Invocation.of (bin.child "javac").text).arg source.text).inDir dir)
      discard <| runner.runChecked
        (((Invocation.of (bin.child "native-image").text).withArgs imageOptions).inDir dir)
      runExpecting runner ((Invocation.of "./helloworld").inDir dir) ["abc", "xyz"]

end SuiteGate.GraalVm
