import SuiteGate.World
/-!
# Version control

Commands of the version control program on a working tree (`Git`).
-/

namespace SuiteGate

/-- The version control program. -/
structure Git where
  program : String

namespace Git

/-- The invocation of a command in a working tree. -/
def invocation (g : Git) (tree : Path) (args : List String) : Invocation :=
  ((Invocation.of g.program).inDir tree).withArgs args

/-- Runs a command with output on the terminal. -/
def command (runner : Runner) (g : Git) (tree : Path) (args : List String) : Op Unit := do
  discard <| runner.runChecked (g.invocation tree args)

/-- The output of a command. -/
def output (runner : Runner) (g : Git) (tree : Path) (args : List String) : Op String := do
  return (← runner.runChecked (g.invocation tree args).captured).stdout

/-- The commit at the head. -/
def tip (runner : Runner) (g : Git) (tree : Path) : Op String := do
  return Text.trim (← g.output runner tree ["rev-parse", "HEAD"])

/-- Takes over the commits of the remote repository. -/
def pull (runner : Runner) (g : Git) (tree : Path) : Op Unit :=
  g.command runner tree ["pull"]

/-- Checks out a revision. -/
def update (runner : Runner) (g : Git) (tree : Path) (revision : String) : Op Unit :=
  g.command runner tree ["checkout", "--quiet", revision]

/-- The branch at the head, if there is one. -/
def activeBranch (runner : Runner) (g : Git) (tree : Path) : Op (Option String) := do
  let output ← runner.run
    (g.invocation tree ["symbolic-ref", "--short", "-q", "HEAD"]).captured
  let branch := Text.trim output.stdout
  pure (if output.succeeded && !branch.isEmpty then some branch else none)

/-- Whether there are changes that are not committed. -/
def isDirty (runner : Runner) (g : Git) (tree : Path) : Op Bool := do
  return !(Text.trim (← g.output runner tree ["status", "--porcelain"])).isEmpty

/-- The tracked files. -/
def trackedFiles (runner : Runner) (g : Git) (tree : Path) : Op (List String) := do
  let listing ← g.output runner tree ["ls-tree", "-r", "HEAD", "--name-only"]
  pure (((Text.lines listing).map Text.trim).filter (· ≠ ""))

/-- The parents of the commit at the head. -/
def parents (runner : Runner) (g : Git) (tree : Path) : Op (List String) := do
  return Text.words (← g.output runner tree ["show", "--pretty=format:%P", "-s", "HEAD"])

/-- Checks out a branch. -/
def checkout (runner : Runner) (g : Git) (tree : Path) (branch : String) : Op Unit :=
  g.command runner tree ["checkout", branch]

/-- Removes all files that are not tracked. -/
def cleanAll (runner : Runner) (g : Git) (tree : Path) : Op Unit :=
  g.command runner tree ["clean", "-fdx"]

/-- Marks all changes for the next commit. -/
def addAll (runner : Runner) (g : Git) (tree : Path) : Op Unit :=
  g.command runner tree ["add", "."]

/-- Commits what is marked. -/
def commit (runner : Runner) (g : Git) (tree : Path) (message : String) : Op Unit :=
  g.command runner tree ["commit", "-m", message]

/-- Sends commits to a remote repository. -/
def push (runner : Runner) (g : Git) (tree : Path) (remote refspec : String) : Op Unit :=
  g.command runner tree ["push", remote, refspec]

/-- Merges a branch into the one at the head. -/
def merge (runner : Runner) (g : Git) (tree : Path) (branch : String) : Op Unit :=
  g.command runner tree ["merge", branch]

end Git

end SuiteGate
