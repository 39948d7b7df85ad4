import SuiteGate.Disk.Copy
import SuiteGate.Text.Utf8
import SuiteGate.World
/-!
# Files in operations

Reading, writing and copying files as operations, and files and directories that only last as
long as an operation (`withTempFile`, `withTempDir`).
-/

namespace SuiteGate.Op

/-- The text of a file. -/
def readText (p : Path) : Op String := do
  match Text.decode? (← query fun d cwd => d.readFile cwd p) with
  | some s => pure s
  | none => fail (.io .notText)

/-- Writes a text to a file. -/
def writeText (p : Path) (s : String) : Op Unit :=
  change fun d cwd => d.writeFile cwd p s.toUTF8

/-- Makes a directory and the missing ones above it. -/
def makeDirs (p : Path) : Op Unit :=
  changePartly fun d cwd => d.makeDirAll cwd p

/-- Makes the missing directories above a path. -/
def makeParents (p : Path) : Op Unit :=
  match p.parent? with
  | some parent => makeDirs parent
  | none => pure ()

/-- Copies a file. -/
def copyFile (source target : Path) : Op Unit :=
  change fun d cwd => d.copyFile cwd source target

/-- Copies a file into a directory. -/
def copyInto (file dir : Path) : Op Unit :=
  changePartly fun d cwd => d.copyInto cwd file dir

/-- Copies files into a directory. -/
def copyAllInto (files : List Path) (dir : Path) : Op Unit :=
  files.forM fun file => copyInto file dir

/-- Lays one tree over another and counts the files. -/
def copyTree (source target : Path) : Op Nat := do
  let (result, disk) ← ask fun d cwd => d.copyTree cwd source target
  modify fun w => { w with disk }
  ofExcept .io result

/-- Removes a directory with everything in it, if there is one. -/
def removeTree (p : Path) : Op Unit :=
  changePartly fun d cwd => d.removeTree cwd p

/-! ### Temporary files -/

/-- A number written with six digits. -/
def sixDigits (n : Nat) : String :=
  let digits := Nat.toDigits 10 (n % 1000000)
  String.ofList (List.replicate (6 - digits.length) '0' ++ digits)

/-- The paths that a temporary file can have. -/
def tempPaths (tempDir : Path) (stem ending : String) : List Path :=
  (List.range 1000).map fun n => tempDir.child (stem ++ sixDigits n ++ ending)

/-- A path for a temporary file that leads nowhere yet. -/
def freshPath (stem ending : String) : Op Path := do
  let w ← get
  let free := (tempPaths w.tempDir stem ending).find? fun p =>
    !(w.disk.lstat w.cwd p).isOk
  match free with
  | some p => pure p
  | none => fail (.io (.os .alreadyExists))

/-- Makes a change of the disk if it can be made. -/
def tryChange (f : Disk → List Name → Except IoError Disk) : Op Unit :=
  modify fun w =>
    match f w.disk w.cwd with
    | .ok disk => { w with disk }
    | .error _ => w

/-- Runs an operation with a temporary file that holds a text. -/
def withTempFile {α : Type} (stem ending contents : String) (body : Path → Op α) : Op α := do
  let p ← freshPath stem ending
  writeText p contents
  thenAlways (body p) (tryChange fun d cwd => d.removeFile cwd p)

/-- Runs an operation with a temporary directory. -/
def withTempDir {α : Type} (stem : String) (body : Path → Op α) : Op α := do
  let p ← freshPath stem ""
  change fun d cwd => d.makeDir cwd p
  thenAlways (body p) (modify fun w => { w with disk := (w.disk.removeDirAll w.cwd p).2 })

end SuiteGate.Op
