import SuiteGate.Files
import SuiteGate.Suite.Basic
import SuiteGate.Vendored.Listing
/-!
# Refreshing inlined files

The inlined files stand on a branch of their own as they are in their source trees.  A refresh
takes them over from new source trees, commits them to the branch and merges it
(`Refresh.run`).  What becomes of a file is decided from its name and the source tree alone
(`Treatment.ofPypy`, `Treatment.ofCpython`).
-/

namespace SuiteGate.Vendored

/-- What becomes of an inlined file. -/
inductive Treatment where
  /-- It is copied from a source tree. -/
  | copy (source : Path)
  /-- It stays as it is. -/
  | keep
  /-- It is in no source tree. -/
  | missing
deriving DecidableEq, Repr

namespace Treatment

/-- It is copied if it is found in a source tree. -/
def ofSource : Option Path → Treatment
  | some source => copy source
  | none => missing

/-- The treatment of a file taken over from PyPy. -/
def ofPypy (d : Disk) (cwd : List Name) (root inlined : Path) : Treatment :=
  match sourceName? inlined with
  | none => missing
  | some name =>
    if !Text.endsWith name ".py" then missing
    else if isTestCode name then keep
    else ofSource (findSource d cwd root name)

/-- The treatment of a file taken over from CPython. -/
def ofCpython (d : Disk) (cwd : List Name) (root inlined : Path) : Treatment :=
  match sourceName? inlined with
  | none => missing
  | some name =>
    if Text.endsWith name ".c" || Text.endsWith name ".h" then
      ofSource (findSource d cwd root name)
    else if Text.endsWith name ".py" && isTestCode name then keep
    else missing

end Treatment

/-- What a refresh did. -/
structure RefreshReport where
  updated : List Path
  missing : List Path
  pushed : Bool
deriving DecidableEq, Repr

/-- The branch of the inlined files. -/
def importBranch : String := "python-import"

/-- What the user is told at the start. -/
def intro : String := Text.join "\n"
  ["The inlined sources are updated in these steps:",
   "",
   "  1. Files taken from CPython and PyPy are read from the copyright overrides.",
   "  2. The python-import branch is checked out and refreshed from the given",
   "     source trees.",
   "  3. You get to inspect the branch, then it is committed and optionally",
   "     pushed.",
   "  4. python-import is merged back into your current HEAD. Files inlined",
   "     without going through python-import will conflict; resolve them with",
   "     `git checkout python-import -- <file>` and re-apply local patches.",
   "  5. Afterwards run `pymx checkcopyrights --fix` and the tests."]

/-- What the user is told before the commit. -/
def inspectMessage : String := "Check that the updated files look as intended, then continue"

/-- What the user is asked after the commit. -/
def pushQuestion : String := "Should we push python-import?"

/-- The warning about a file that is in no source tree. -/
def missingWarning : String := "Could not update file, original not found"

/-- The source trees, and what is said of them in the commit. -/
structure Refresh where
  cpython : Path
  pypy : Path
  message : String

namespace Refresh

/-- The message of the commit. -/
def commitMessage (r : Refresh) : String :=
  "Update Python inlined files: " ++ r.message

/-- The directory of the standard library in the suite. -/
def libraryDir : Path := ⟨"graalpython/lib-python/3"⟩

/-- The files with the way in which each is treated. -/
def files (r : Refresh) (l : Listing) :
    List (Path × (Disk → List Name → Path → Treatment)) :=
  (l.pypy ++ extraFiles).map (fun f => (f, fun d cwd => Treatment.ofPypy d cwd r.pypy)) ++
    l.cpython.map (fun f => (f, fun d cwd => Treatment.ofCpython d cwd r.cpython))

/-- Treats one file and adds it to the report. -/
def refreshFile (s : Suite) (report : RefreshReport)
    (file : Path × (Disk → List Name → Path → Treatment)) : Op RefreshReport := do
  match ← Op.ask fun d cwd => file.2 d cwd file.1 with
  | .copy source =>
    let target := s.path file.1
    Op.makeParents target
    Op.copyFile source target
    pure { report with updated := report.updated ++ [file.1] }
  | .keep => pure report
  | .missing =>
    Op.warn missingWarning
    pure { report with missing := report.missing ++ [file.1] }

/-- Commits the refreshed files, sends the branch if the user says so, and merges it into the
given commit.  The result says whether the branch was sent. -/
def commit (runner : Runner) (prompt : Prompt) (r : Refresh) (s : Suite) (tip : String) :
    Op Bool := do
  s.git.addAll runner s.dir
  prompt.wait inspectMessage
  s.git.commit runner s.dir r.commitMessage
  let push ← prompt.ask pushQuestion
  if push then s.git.push runner s.dir "origin" (importBranch ++ ":" ++ importBranch)
  s.git.update runner s.dir tip
  s.git.merge runner s.dir importBranch
  pure push

/-- Refreshes the branch of the inlined files and merges it. -/
def run (runner : Runner) (prompt : Prompt) (r : Refresh) (s : Suite) : Op RefreshReport := do
  prompt.wait intro
  let listing := Listing.parse (← Op.readText (s.path s.config.gate.copyrightOverrides))
  if ← s.git.isDirty runner s.dir then Op.fail (.other "Working dir must be clean")
  else
    let tip ← s.git.tip runner s.dir
    s.git.checkout runner s.dir importBranch
    s.git.cleanAll runner s.dir
    Op.removeTree (s.path ⟨"graalpython"⟩)
    discard <| Op.copyTree (r.cpython.child "Lib") (s.path libraryDir)
    let report ← (r.files listing).foldlM (refreshFile s) ⟨[], [], false⟩
    return { report with pushed := ← commit runner prompt r s tip }

end Refresh

end SuiteGate.Vendored
