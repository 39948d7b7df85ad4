import SuiteGate.Disk.Basic
/-!
# Planting trees

A tree is described by a list of entries, each with its path relative to a directory
(`Planting`).  `Disk.plant` makes them one after the other; an entry that cannot be made is left
out.
-/

namespace SuiteGate

/-- What is to stand at a place. -/
inductive Planted where
  | file (bytes : ByteArray) (executable : Bool) (modified : Option Instant)
  | dir
  | link (target : Path)
  | nothing

/-- Something to be made at a path. -/
structure Planting where
  path : Path
  what : Planted

namespace Disk

/-- Removes what stands at a path. -/
def uproot (d : Disk) (cwd : List Name) (p : Path) : Disk :=
  match d.locate cwd p false with
  | .ok (place, _) => (d.erase place).tick
  | .error _ => d

/-- Makes a symbolic link. -/
def makeLink (d : Disk) (cwd : List Name) (p target : Path) : Except IoError Disk := do
  match ← d.resolveSteps cwd p p.steps false with
  | .present .. => throw (.os .alreadyExists)
  | .absent dir name => pure (d.put (dir ++ [name]) (.link target) trivial).tick

/-- Makes a file that was modified at the given time, or now. -/
def plantFile (d : Disk) (cwd : List Name) (p : Path) (bytes : ByteArray) (executable : Bool)
    (modified : Option Instant) : Except IoError Disk := do
  let (place, _) ← d.openForWriting cwd p
  pure (d.put place (.file ⟨bytes, modified.getD d.clock, executable⟩) trivial).tick

/-- Makes one entry below a directory. -/
def plantOne (d : Disk) (base : List Name) (x : Planting) : Disk :=
  match x.what with
  | .nothing => d.uproot base x.path
  | .dir => (d.makeDirAll base x.path).2
  | .file bytes executable modified =>
    let d := (d.makeDirAll base (x.path.parent?.getD ⟨""⟩)).2
    match d.plantFile base x.path bytes executable modified with
    | .ok d' => d'
    | .error _ => d
  | .link target =>
    let d := (d.makeDirAll base (x.path.parent?.getD ⟨""⟩)).2
    match (d.uproot base x.path).makeLink base x.path target with
    | .ok d' => d'
    | .error _ => d

/-- Makes entries below a directory. -/
def plant (d : Disk) (base : List Name) (xs : List Planting) : Disk :=
  xs.foldl (fun d x => d.plantOne base x) d

end Disk

end SuiteGate
