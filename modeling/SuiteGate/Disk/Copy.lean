import SuiteGate.Disk.Walk
/-!
# Copying trees

`Disk.copyTree` lays one tree over another, `Disk.copyInto` copies a file into a directory under
its own name, and `Disk.removeTree` removes a directory that may be missing.  Each keeps what it
did before an error.
-/

namespace SuiteGate.Disk

/-- Whether a change took place, and the disk after it. -/
def settle (d : Disk) : Except IoError Disk → Except IoError Unit × Disk
  | .ok d' => (.ok (), d')
  | .error e => (.error e, d)

/-- Makes the missing directories above a path. -/
def makeParents (d : Disk) (cwd : List Name) (p : Path) : Except IoError Unit × Disk :=
  match p.parent? with
  | some parent => d.makeDirAll cwd parent
  | none => (.ok (), d)

/-- Copies one item of a walk to its place below the target.  The result says whether it was a
file, or a link, which is copied like the file it leads to. -/
def copyItem (d : Disk) (cwd : List Name) (target : Path) (item : WalkItem) :
    Except IoError Bool × Disk :=
  let place := target.join ⟨Text.join "/" (item.below.map Name.text)⟩
  if item.node.isDir then
    match d.makeDirAll cwd place with
    | (.ok (), d') => (.ok false, d')
    | (.error e, d') => (.error e, d')
  else
    match d.makeParents cwd place with
    | (.error e, d') => (.error e, d')
    | (.ok (), d') =>
      match d'.copyFile cwd item.path place with
      | .ok d'' => (.ok true, d'')
      | .error e => (.error e, d')

/-- Copies the items of a walk, counting those that are not directories. -/
def copyItems (cwd : List Name) (target : Path) : Walk → Nat → Disk → Except IoError Nat × Disk
  | [], n, d => (.ok n, d)
  | .error fault :: _, _, d => (.error fault.toIoError, d)
  | .ok item :: rest, n, d =>
    match d.copyItem cwd target item with
    | (.error e, d') => (.error e, d')
    | (.ok true, d') => copyItems cwd target rest (n + 1) d'
    | (.ok false, d') => copyItems cwd target rest n d'

/-- Copies a tree over another, which is made if it is missing, and counts the files.  The tree is
listed when the target was made, so what was missing in it on the way to the target is copied, too.
The target itself should not be in the tree. -/
def copyTree (d : Disk) (cwd : List Name) (source target : Path) : Except IoError Nat × Disk :=
  match d.lstat cwd source with
  | .ok (.dir _ _) =>
    match d.makeDirAll cwd (target.join ⟨""⟩) with
    | (.error e, d') => (.error e, d')
    | (.ok (), d') => copyItems cwd target (d'.walk cwd source).tail 0 d'
  | _ => copyItems cwd target (d.walk cwd source) 0 d

/-- Copies a file into a directory, which is made if it is missing, under the file's name. -/
def copyInto (d : Disk) (cwd : List Name) (file dir : Path) : Except IoError Unit × Disk :=
  match file.fileName? with
  | none => (.error (.noFileName file), d)
  | some name =>
    match d.makeDirAll cwd dir with
    | (.error e, d') => (.error e, d')
    | (.ok (), d') => d'.settle (d'.copyFile cwd file (dir.child name))

/-- Removes a directory with everything in it, if there is one. -/
def removeTree (d : Disk) (cwd : List Name) (dir : Path) : Except IoError Unit × Disk :=
  match d.removeDirAll cwd dir with
  | (.error e, d') => (if e.isNotFound then .ok () else .error e, d')
  | r => r

end SuiteGate.Disk
