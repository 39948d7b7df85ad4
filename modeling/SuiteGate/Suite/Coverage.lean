import SuiteGate.Suite.Basic
/-!
# Coverage

A command of the build tool runs with its coverage recorded, and then the report is written
(`coverage`).
-/

namespace SuiteGate

/-- The options that record the coverage of a command. -/
def coverageOptions : List String :=
  ["--jacoco=on", "--jacoco-whitelist-package=com.oracle.graal.python"]

/-- Runs a command of the build tool with its coverage recorded and writes the report. -/
def coverage (runner : Runner) (s : Suite) (args : List String) : Op Unit := do
  discard <| s.buildTool.run runner (coverageOptions ++ args)
  discard <| s.buildTool.command runner "jacocoreport" ["--omit-excluded", "--format=html"]

end SuiteGate
