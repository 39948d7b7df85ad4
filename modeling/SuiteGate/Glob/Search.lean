import SuiteGate.Disk.Walk
import SuiteGate.Glob.Pattern
/-!
# The search for files

The paths that a pattern stands for (`Glob.search?`).  The search goes from the root or the current
directory along the pieces of the pattern.  A piece without special characters is taken as it
stands, if there is something at that path; for any other piece the names in the directory are
gone through in their order.  So `.` and `..` are only found by pieces that are just that.
-/

namespace SuiteGate.Glob

open Shell (Pattern)

/-- Whether a path is just the current directory. -/
def isCurrent (p : Path) : Bool :=
  p.components = [.current]

/-- The path of an entry; in the current directory that is just its name. -/
def entryPath (dir : Path) (name : String) : Path :=
  if isCurrent dir then ⟨name⟩ else dir.child name

/-- The names in a directory in their order; other things have none. -/
def sortedNames (d : Disk) (cwd : List Name) (dir : Path) : List Name :=
  match d.readDir cwd dir with
  | .ok entries => (entries.map (·.1)).mergeSort Node.nameLe
  | .error _ => []

/-- The paths to which patterns lead from a path, each of them one step further. -/
def searchFrom (d : Disk) (cwd : List Name) : List Pattern → Path → List Path
  | [], p => [p]
  | pattern :: rest, p =>
    match plainText? pattern with
    | some cs =>
      let next := entryPath p (String.ofList cs)
      let found :=
        if cs = ['.'] || cs = ['.', '.'] then d.isDir cwd p else d.pathExists cwd next
      if found then searchFrom d cwd rest next else []
    | none =>
      ((sortedNames d cwd p).filter fun x => pattern.matches? x.text.toList).flatMap fun x =>
        searchFrom d cwd rest (entryPath p x.text)

/-- The paths that a pattern stands for, if it is one.  Patterns that end in a separator, which
stand for directories only, are not asked for. -/
def search? (d : Disk) (cwd : List Name) (pattern : Path) : Option (List Path) := do
  let _ ← read? pattern.text.toList
  let pieces ← pattern.segments.mapM read?
  return searchFrom d cwd pieces (if pattern.isAbsolute then ⟨"/"⟩ else ⟨"."⟩)

end SuiteGate.Glob
