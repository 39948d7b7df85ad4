import SuiteGate.Disk.Walk
import SuiteGate.Error
/-!
# Staleness

Whether outputs have to be built again from their sources, judged by modification times alone.
Every regular file below a directory counts, and every symbolic link to one with the time of the
file (`stamps`).  Outputs are stale if there are none, or if the oldest of them is older than the
newest source (`check`); files of the same age are up to date.  `clean` removes whole trees.
-/

namespace SuiteGate.Staleness

/-- A file and the time of its last modification. -/
structure Stamp where
  path : Path
  modified : Instant
deriving DecidableEq, Repr

/-- The outcome of comparing sources with outputs. -/
inductive Verdict where
  /-- There is no output. -/
  | noOutput (dir : Path)
  /-- Some source is newer than some output. -/
  | outdated (newestSource oldestOutput : Stamp)
  | upToDate
deriving DecidableEq, Repr

namespace Verdict

/-- Whether a build is needed. -/
def isStale : Verdict → Bool
  | upToDate => false
  | _ => true

/-- Why a build is or is not needed. -/
def reason : Verdict → String
  | noOutput dir => "build needed, no output files in " ++ dir.text
  | outdated s o => "rebuild needed, " ++ s.path.text ++ " newer than " ++ o.path.text
  | upToDate => "up to date"

end Verdict

/-- The stamp of what a walk came by, if it counts as a file. -/
def stampOf (d : Disk) (cwd : List Name) :
    Except WalkFault WalkItem → Except StalenessError (Option Stamp)
  | .error fault => .error (.walk fault.path fault.toIoError)
  | .ok item =>
    match item.node with
    | .dir .. => .ok none
    | .file data => .ok (some ⟨item.path, data.modified⟩)
    | .link _ =>
      match d.stat cwd item.path with
      | .error e => .error (.metadata item.path e)
      | .ok (.file data) => .ok (some ⟨item.path, data.modified⟩)
      | .ok _ => .ok none

/-- The stamps of all files below a directory, in the order of the walk, or the first error. -/
def stampsOf (d : Disk) (cwd : List Name) : Walk → Except StalenessError (List Stamp)
  | [] => .ok []
  | x :: xs => do
    let stamp ← stampOf d cwd x
    let rest ← stampsOf d cwd xs
    pure (stamp.toList ++ rest)

/-- The stamps of all files below a directory. -/
def stamps (d : Disk) (cwd : List Name) (dir : Path) : Except StalenessError (List Stamp) :=
  stampsOf d cwd (d.walk cwd dir)

/-- The first of two stamps unless the second is better. -/
def better (isBetter : Instant → Instant → Bool) (best : Option Stamp) (s : Stamp) :
    Option Stamp :=
  match best with
  | none => some s
  | some b => if isBetter s.modified b.modified then some s else some b

/-- The first of the most recently modified stamps. -/
def latest (ss : List Stamp) : Option Stamp :=
  ss.foldl (better fun new best => best.isBefore new) none

/-- The first of the least recently modified stamps. -/
def earliest (ss : List Stamp) : Option Stamp :=
  ss.foldl (better fun new best => new.isBefore best) none

/-- The most recently modified file below a directory. -/
def newestFile (d : Disk) (cwd : List Name) (dir : Path) :
    Except StalenessError (Option Stamp) :=
  (stamps d cwd dir).map latest

/-- The least recently modified file below a directory. -/
def oldestFile (d : Disk) (cwd : List Name) (dir : Path) :
    Except StalenessError (Option Stamp) :=
  (stamps d cwd dir).map earliest

/-- The verdict on the newest source and the oldest output. -/
def judge (output : Path) : Option Stamp → Option Stamp → Verdict
  | _, none => .noOutput output
  | some s, some o => if o.modified.isBefore s.modified then .outdated s o else .upToDate
  | none, some _ => .upToDate

/-- Compares the tree of sources with that of outputs.  Outputs may be missing, sources may not. -/
def check (d : Disk) (cwd : List Name) (source output : Path) :
    Except StalenessError Verdict := do
  let newest ← newestFile d cwd source
  let oldest ← if d.pathExists cwd output then oldestFile d cwd output else pure none
  pure (judge output newest oldest)

/-- Removes trees and files; what is missing is left out.  Stops at the first error. -/
def clean (d : Disk) (cwd : List Name) : List Path → Except IoError Unit × Disk
  | [] => (.ok (), d)
  | p :: ps =>
    let (result, d') :=
      if d.isDir cwd p then d.removeDirAll cwd p
      else if d.pathExists cwd p then
        match d.removeFile cwd p with
        | .ok d' => (.ok (), d')
        | .error e => (.error e, d)
      else (.ok (), d)
    match result with
    | .ok () => clean d' cwd ps
    | .error e => (.error e, d')

end SuiteGate.Staleness
