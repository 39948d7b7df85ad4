import SuiteGate.Files
import SuiteGate.Suite.Basic
/-!
# Copyright headers

The tracked files that carry a copyright header (`copyrightFiles`) are checked by the build tool,
which reads their names from a temporary file (`checkCopyrights`).
-/

namespace SuiteGate.Style

/-- The extensions of files with a copyright header. -/
def sourceExtensions : List String := ["py", "java", "c", "h", "sh"]

/-- What the names of files that are not ours, or generated, hold. -/
def foreignParts : List String := ["lib-python/3", "com.oracle.graal.python.test/testData"]

/-- Whether a file carries a copyright header. -/
def hasCopyright (name : String) : Bool :=
  !foreignParts.any (Text.contains name) &&
    match Path.extension? ⟨name⟩ with
    | some e => sourceExtensions.contains e
    | none => false

/-- The files that carry a copyright header. -/
def copyrightFiles (names : List String) : List String :=
  names.filter hasCopyright

/-- The contents of the file that lists files. -/
def fileList (names : List String) : String :=
  String.join (names.map (· ++ "\n"))

/-- The command that checks the files in a list. -/
def checkArgs (list : Path) (fix : Bool) : List String :=
  ["checkcopyrights", "--primary", "--", "--file-list", list.text]
    ++ if fix then ["--fix"] else []

/-- Checks the copyright headers of the tracked files. -/
def checkCopyrights (runner : Runner) (s : Suite) (fix : Bool) : Op Unit := do
  let names ← s.git.trackedFiles runner s.dir
  Op.withTempFile "pymx-copyrights" ".txt" (fileList (copyrightFiles names)) fun list => do
    discard <| s.buildTool.run runner (checkArgs list fix)

end SuiteGate.Style
