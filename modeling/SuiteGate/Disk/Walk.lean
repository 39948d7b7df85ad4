import SuiteGate.Disk.Basic
/-!
# Walks

A walk lists what stands at and below a path, each directory before its entries
(`Disk.walk`).  A path that leads through a symbolic link to a directory is walked like that
directory, but the first item is the link; no link below it is followed.  The entries of a
directory come in its own order, or, in a sorted walk (`Disk.sortedWalk`), in the order of their
names.  Where the walk cannot go on it lists a fault instead.
-/

namespace SuiteGate

/-- Something that a walk came by: its path, the names that lead to it from the start of the walk,
and what it is. -/
structure WalkItem where
  path : Path
  below : List Name
  node : Node

/-- A path at which a walk could not go on. -/
structure WalkFault where
  path : Path
  cause : IoError

namespace WalkFault

/-- The fault as an error of a file operation. -/
def toIoError (f : WalkFault) : IoError :=
  .walking f.path f.cause

end WalkFault

/-- What a walk lists. -/
abbrev Walk := List (Except WalkFault WalkItem)

namespace Node

mutual

/-- The walk of a node. -/
def walk (path : Path) (below : List Name) : Node → Walk
  | .dir ⟨true, w⟩ es => .ok ⟨path, below, .dir ⟨true, w⟩ es⟩ :: walkEntries path below es
  | .dir ⟨false, w⟩ es =>
    [.ok ⟨path, below, .dir ⟨false, w⟩ es⟩, .error ⟨path, .os .permissionDenied⟩]
  | .file data => [.ok ⟨path, below, .file data⟩]
  | .link target => [.ok ⟨path, below, .link target⟩]

/-- The walk of the entries of a directory. -/
def walkEntries (path : Path) (below : List Name) : List (Name × Node) → Walk
  | [] => []
  | (x, c) :: es =>
    walk (path.child x.text) (below ++ [x]) c ++ walkEntries path below es

end

/-- Whether one of two names comes before the other, or they are the same. -/
def nameLe (a b : Name) : Bool :=
  a.text ≤ b.text

mutual

/-- The walk of a node, the entries of each directory in the order of their names. -/
def sortedWalk (path : Path) (below : List Name) : Node → Walk
  | .dir ⟨true, w⟩ es =>
    .ok ⟨path, below, .dir ⟨true, w⟩ es⟩ ::
      ((entryWalks path below es).mergeSort fun a b => nameLe a.1 b.1).flatMap (·.2)
  | .dir ⟨false, w⟩ es =>
    [.ok ⟨path, below, .dir ⟨false, w⟩ es⟩, .error ⟨path, .os .permissionDenied⟩]
  | .file data => [.ok ⟨path, below, .file data⟩]
  | .link target => [.ok ⟨path, below, .link target⟩]

/-- The walk of each entry of a directory. -/
def entryWalks (path : Path) (below : List Name) : List (Name × Node) → List (Name × Walk)
  | [] => []
  | (x, c) :: es =>
    (x, sortedWalk (path.child x.text) (below ++ [x]) c) :: entryWalks path below es

end

end Node

namespace Disk

/-- The walk from a path, given the walk of a node. -/
def walkWith (d : Disk) (cwd : List Name) (p : Path) (walkNode : Node → Walk) : Walk :=
  match d.lstat cwd p with
  | .error e => [.error ⟨p, e⟩]
  | .ok (.link target) =>
    match d.stat cwd p with
    | .error e => [.error ⟨p, e⟩]
    | .ok (.dir l es) => .ok ⟨p, [], .link target⟩ :: (walkNode (.dir l es)).tail
    | .ok _ => [.ok ⟨p, [], .link target⟩]
  | .ok n => walkNode n

/-- The walk from a path. -/
def walk (d : Disk) (cwd : List Name) (p : Path) : Walk :=
  d.walkWith cwd p (Node.walk p [])

/-- The walk from a path, the entries of each directory in the order of their names. -/
def sortedWalk (d : Disk) (cwd : List Name) (p : Path) : Walk :=
  d.walkWith cwd p (Node.sortedWalk p [])

end Disk

end SuiteGate
