import SuiteGate.Developer.Programs
import SuiteGate.Style.Copyrights
/-!
# Style checks

The style checks are those of the copyright headers, of the formatting where Eclipse can be found,
and of bug patterns (`styleChecks`).
-/

namespace SuiteGate.Style

/-- Checks the formatting with an Eclipse program. -/
def checkFormatting (runner : Runner) (s : Suite) (eclipse : Path) : Op Unit := do
  let tool := s.buildTool.withEnv (Overrides.empty.set Developer.eclipseVariable eclipse.text)
  discard <| tool.command runner "eclipseformat" []

/-- Checks the style of the suite. -/
def styleChecks (runner : Runner) (s : Suite) (fix : Bool) : Op Unit := do
  checkCopyrights runner s fix
  let w ← get
  match Developer.eclipse? w.disk w.cwd w.environment s.dir with
  | some eclipse => checkFormatting runner s eclipse
  | none => pure ()
  discard <| s.buildTool.command runner "spotbugs" []

end SuiteGate.Style
