import SuiteGate.Glob.Search
/-!
# Test discovery

The test files below given paths (`discover`).  A path that leads nowhere is taken as one inside
the root of the tests.  A file is a test as it is; for a directory two patterns are searched, the
tests one level below it and then those directly inside, and some names are left out.
-/

namespace SuiteGate.Tests

/-- Whether a path that was found is that of a test which is not left out. -/
def isIncluded (exclude : List String) (p : Path) : Bool :=
  p.extension? = some "py" &&
    p.fileName?.any fun name => Text.startsWith name "test_" && !exclude.contains name

/-- The patterns of the tests of a directory. -/
def patternsOf (dir : Path) : List Path :=
  let base := String.ofList (Glob.escape dir.text.toList)
  [⟨base ++ "/*/test_*.py"⟩, ⟨base ++ "/test_*.py"⟩]

/-- The tests of a directory.  What is no pattern stands for nothing. -/
def testsUnder (d : Disk) (cwd : List Name) (exclude : List String) (dir : Path) : List Path :=
  (patternsOf dir).flatMap fun pattern =>
    ((Glob.search? d cwd pattern).getD []).filter (isIncluded exclude)

/-- The path that is searched: as it is given if there is something, else inside the root. -/
def chosen (d : Disk) (cwd : List Name) (root p : Path) : Path :=
  if d.pathExists cwd p then p else root.join p

/-- The tests that a path stands for. -/
def testsAt (d : Disk) (cwd : List Name) (root : Path) (exclude : List String) (p : Path) :
    List Path :=
  let p := chosen d cwd root p
  if d.isFile cwd p then [p] else testsUnder d cwd exclude p

/-- The tests that some paths stand for; no paths stand for all tests. -/
def discover (d : Disk) (cwd : List Name) (root : Path) (paths : List Path)
    (exclude : List String) : List Path :=
  (if paths.isEmpty then [root] else paths).flatMap (testsAt d cwd root exclude)

end SuiteGate.Tests
