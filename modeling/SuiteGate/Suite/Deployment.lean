import SuiteGate.Suite.Basic
/-!
# Deployment

Binaries are deployed from one branch only (`deployIfMaster`).
-/

namespace SuiteGate

/-- The branch that binaries are deployed from. -/
def deployBranch : String := "master"

/-- The arguments of the deployment; nothing is added on this platform. -/
def deployArgs (args : List String) : List String := args

/-- Deploys binaries if the suite is on the branch for it, and says whether it did. -/
def deployIfMaster (runner : Runner) (s : Suite) (args : List String) : Op Bool := do
  if (← s.git.activeBranch runner s.dir) = some deployBranch then
    discard <| s.buildTool.command runner "deploy-binary" (deployArgs args)
    pure true
  else pure false

end SuiteGate
