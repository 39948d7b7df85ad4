import SuiteGate.Python.Arguments
import SuiteGate.Suite.Basic
/-!
# Python runs

A Python run starts the launcher's main class on a Java virtual machine (`Python.assemble`).  The
class path comes from the build tool.  Arguments keep their order: those of the virtual machine,
the class path, the assertion switches, the main class, the options of the launcher, and the
arguments of the program.
-/

namespace SuiteGate.Python

/-- What can be chosen about a run besides its arguments. -/
structure RunOptions where
  /-- Arguments of the virtual machine, behind the usual ones. -/
  extraVmArgs : List String := []
  /-- Distributions that the class path includes, too. -/
  extraDistributions : List String := []
  overrides : Overrides := Overrides.empty
  cwd : Option Path := none
  /-- Whether errors are to be shown with the stack of the virtual machine. -/
  javaStacktrace : Bool := false

/-- The options of runs that a user asks for. -/
def RunOptions.interactive : RunOptions :=
  { javaStacktrace := true }

/-- The variable that holds the home of the launcher. -/
def homeVariable : String := "GRAAL_PYTHONHOME"

/-- The variable that says whether the compiler has to be there. -/
def mustUseGraalVariable : String := "GRAALPYTHON_MUST_USE_GRAAL"

/-- The overrides of the caller; the home of the launcher is set to the one in the suite unless
the caller or the environment sets it. -/
def launcherOverrides (s : Suite) (o : Overrides) : Op Overrides := do
  if (o.get? homeVariable).isSome || (← Op.getVariable homeVariable).isSome then pure o
  else pure ((Overrides.empty.set homeVariable s.config.devPythonHome.text).extend o)

/-- Fails, or warns, if the compiler is asked for and not there. -/
def checkVm (s : Suite) (o : Overrides) : Op Unit := do
  let request := (o.get? mustUseGraalVariable).or (← Op.getVariable mustUseGraalVariable)
  if s.config.suite.jvmci then pure ()
  else if request = some "1" then Op.fail (.other "graal compiler was not found")
  else if request = some "0" then
    Op.warn "graal compiler was not found, executing using standard VM"
  else pure ()

/-- The options of the launcher and the arguments of the program. -/
def launcherArgs (s : Suite) (langArgs : List String) (javaStacktrace : Bool) : List String :=
  ["--experimental-options=true"]
    ++ (if langArgs.any (Text.startsWith · "--python.CAPI") then []
        else ["--python.CAPI=" ++ s.config.capiHome.text])
    ++ (if javaStacktrace && !langArgs.contains "--python.WithJavaStacktrace" then
          ["--python.WithJavaStacktrace"]
        else [])
    ++ langArgs

/-- The arguments of the virtual machine, with the main class at the end. -/
def vmArgs (s : Suite) (given : List String) (classpath : String) (extra : List String) :
    List String :=
  given ++ ["-cp", classpath] ++ (if extra.contains "-da" then [] else ["-ea", "-esa"]) ++ extra
    ++ [s.config.python.mainClass]

/-- The invocation of a run. -/
def assemble (runner : Runner) (s : Suite) (args : List String) (options : RunOptions) :
    Op Invocation := do
  let (given, rest) := splitVmArgs args
  let (langArgs, dists) := takeDistributions rest
  let overrides ← launcherOverrides s options.overrides
  checkVm s overrides
  let classpath ← s.buildTool.classpath runner
    (s.config.python.distributions ++ dists ++ options.extraDistributions)
  let i := (((Invocation.of s.config.python.java).withArgs
    (vmArgs s given classpath options.extraVmArgs)).withArgs
    (launcherArgs s langArgs options.javaStacktrace)).extendEnv overrides
  pure { i with cwd := options.cwd }

/-- Runs the launcher with output on the terminal. -/
def run (runner : Runner) (s : Suite) (args : List String) (options : RunOptions) :
    Op ToolOutput := do
  runner.runChecked (← assemble runner s args options)

end SuiteGate.Python
