import SuiteGate.Imports.Update
/-!
# Searching a history

`Search.run` looks in another checkout, commit by commit along the first parents, for the revision
whose suite imports the same revision of the framework as ours.  The checkout is left there, or
where it was if the history holds no such revision.
-/

namespace SuiteGate.Imports

/-- How a search ends. -/
inductive SearchResult where
  /-- At a commit that imports the same revision. -/
  | found (commit : String)
  /-- At the end of the history. -/
  | exhausted
  /-- After as many commits as were allowed. -/
  | unfinished
deriving DecidableEq, Repr

namespace Search

/-- The suite definition in the checkout of another suite, which is named for it. -/
def otherSuiteFile (checkout : Path) (project : String) : Path :=
  (checkout.child ("mx." ++ project)).child "suite.py"

/-- Goes back along the first parents until the suite definition names a version.  The number
bounds the commits. -/
def loop (runner : Runner) (g : Git) (checkout file : Path) (needed start : String) :
    Nat → Op SearchResult
  | 0 => pure .unfinished
  | n + 1 => do
    let text ← Op.readText file
    if frameworkVersion? text = some needed then
      return .found (← g.tip runner checkout)
    else
      match ← g.parents runner checkout with
      | parent :: _ =>
        g.update runner checkout parent
        loop runner g checkout file needed start n
      | [] =>
        Op.warn "reached oldest revision, reverting"
        g.update runner checkout start
        return .exhausted

/-- Looks for the revision of another checkout that imports the same revision of the framework as
the suite, among at most so many. -/
def run (runner : Runner) (s : Suite) (limit : Nat) (checkout : Path) : Op SearchResult := do
  match checkout.fileName? with
  | none => Op.fail (.other ("invalid checkout path " ++ checkout.text))
  | some project =>
    let ours ← Op.readText (suiteFile s)
    match version? ours "sulong" with
    | none => Op.fail (.other "sulong import has no version")
    | some needed =>
      let start ← s.git.tip runner checkout
      loop runner s.git checkout (otherSuiteFile checkout project) needed start limit

end Search

end SuiteGate.Imports
