import SuiteGate.Config.Basic
import SuiteGate.Tools.BuildTool
import SuiteGate.Tools.Repository
/-!
# Suites

A suite is a checkout with its configuration and a verbosity for the builds in it (`Suite`).  Its
build tool and its version control program are those of the configuration.
-/

namespace SuiteGate

/-- How much builds are to print. -/
inductive Verbosity where
  | quiet
  | normal
  | verbose
deriving DecidableEq, Repr, Inhabited

/-- A checkout of a suite. -/
structure Suite where
  config : Config
  verbosity : Verbosity := .normal
deriving Inhabited

namespace Suite

/-- The directory of the suite. -/
def dir (s : Suite) : Path :=
  s.config.suite.dir

/-- A path inside the suite. -/
def path (s : Suite) (relative : Path) : Path :=
  s.config.suitePath relative

/-- The build tool of the suite. -/
def buildTool (s : Suite) : BuildTool where
  program := s.config.suite.mx
  suiteDir := s.dir

/-- The version control program of the suite. -/
def git (s : Suite) : Git :=
  ⟨s.config.suite.git⟩

end Suite

end SuiteGate
