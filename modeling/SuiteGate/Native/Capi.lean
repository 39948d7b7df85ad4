import SuiteGate.Files
import SuiteGate.Python.Run
import SuiteGate.Staleness
/-!
# The C API project

The C API project is built by its setup script from staged headers into an output directory
(`Capi.build`).  It is built from scratch, and only if a source is newer than some output or there
is no output (`Capi.buildIfNeeded`).  `nativeBuild` and `nativeClean` go on with the native
projects and archives that depend on it.
-/

namespace SuiteGate

namespace Capi

/-- Compares the sources with the outputs. -/
def needsBuild (s : Suite) : Op Staleness.Verdict := do
  Op.ofExcept .staleness
    (← Op.ask fun d cwd => Staleness.check d cwd s.config.capiSource s.config.capiHome)

/-- Removes the staged headers and the outputs. -/
def clean (s : Suite) : Op Unit :=
  Op.changePartly fun d cwd => Staleness.clean d cwd [s.config.capiHeaders, s.config.capiHome]

/-- Replaces the staged headers with those of the project and the extra ones. -/
def stageHeaders (s : Suite) : Op Unit := do
  let target := s.config.capiHeaders
  Op.removeTree target
  discard <| Op.copyTree (s.config.capiSource.child "include") target
  Op.copyAllInto (s.config.capi.extraHeaders.map s.path) target

/-- The variables that the setup script is not to see. -/
def compilerVariables : List String := ["CC", "CFLAGS", "LDFLAGS"]

/-- The overrides for the setup script. -/
def setupOverrides (s : Suite) : Overrides :=
  compilerVariables.foldl Overrides.remove (Overrides.ofPairs s.config.capi.buildEnv.toList)

/-- The directory in which the setup script runs. -/
def scratchDir (s : Suite) : Path :=
  s.config.capiHome.child "mxbuild_temp"

/-- The directory that holds the built modules. -/
def modulesDir (s : Suite) : Path :=
  s.config.capiHome.child "modules"

/-- The switch of the setup script for a verbosity. -/
def verbosityArgs : Verbosity → List String
  | .verbose => ["-v"]
  | .quiet => ["-q"]
  | .normal => []

/-- The arguments of the run of the setup script. -/
def setupArgs (s : Suite) : List String :=
  verbosityArgs s.verbosity
    ++ ["-S", (s.config.capiSource.join s.config.capi.setupScript).text, s.config.capiHome.text]

/-- Runs the setup script in its scratch directory, which is removed afterwards whatever becomes
of the run. -/
def runSetup (runner : Runner) (s : Suite) : Op Unit := do
  let options : Python.RunOptions :=
    { overrides := setupOverrides s, cwd := some (scratchDir s) }
  -- a panic is not caught
  let result ← Op.attempt (Python.run runner s (setupArgs s) options)
  Op.removeTree (scratchDir s)
  match result with
  | .ok _ => pure ()
  | .error e => Op.fail e

/-- Stages the headers and builds into the output directory. -/
def build (runner : Runner) (s : Suite) : Op Unit := do
  stageHeaders s
  Op.makeDirs (modulesDir s)
  Op.makeDirs (scratchDir s)
  runSetup runner s

/-- Builds from scratch if the outputs are stale, and says whether it did. -/
def buildIfNeeded (runner : Runner) (s : Suite) : Op Bool := do
  let verdict ← needsBuild s
  if verdict.isStale then
    clean s
    build runner s
    pure true
  else pure false

end Capi

/-- Builds the C API project if needed, then the native projects and archives. -/
def nativeBuild (runner : Runner) (s : Suite) : Op Unit := do
  discard <| Capi.buildIfNeeded runner s
  s.buildTool.build runner s.config.native.dependencies

/-- Cleans the C API project, then the native projects and archives. -/
def nativeClean (runner : Runner) (s : Suite) : Op Unit := do
  Capi.clean s
  s.buildTool.clean runner s.config.native.dependencies

end SuiteGate
