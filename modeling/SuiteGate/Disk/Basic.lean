import SuiteGate.Disk.Node
import SuiteGate.IoError
/-!
# The disk

The disk is a file tree with a clock (`Disk`).  A path is followed step by step from a place in
the tree (`Disk.resolve`), through at most forty symbolic links, and leads to what stands there or
to a name that is free in an existing directory (`Place`).  Everything else is a question about or
a change of the place that a path leads to: `stat`, `readFile`, `writeFile`, `makeDir`,
`removeFile`, `removeDirAll`, `rename`, `copyFile`.  A directory that is not writable
(`isWritable`) admits no new entry and keeps those it has, so the removal of a tree can stop
midway.
-/

namespace SuiteGate

/-- A file tree, whose root is a directory, and the time at which the next change of it takes
place. -/
structure Disk where
  root : Node
  isDir_root : root.isDir = true
  distinct : root.Distinct
  clock : Instant

namespace Disk

/-- The disk that holds nothing. -/
def empty (clock : Instant) : Disk :=
  ⟨Node.emptyDir, rfl, Node.distinct_emptyDir, clock⟩

instance : Inhabited Disk := ⟨empty default⟩

/-- What stands at a place. -/
def get? (d : Disk) (place : List Name) : Option Node :=
  d.root.get? place

/-- The disk with a place changed.  Instead of anything but a directory, an empty one becomes the
root. -/
def alter (d : Disk) (place : List Name) (f : Option Node → Option Node)
    (hf : ∀ o : Option Node, (∀ c ∈ o, c.Distinct) → ∀ c ∈ f o, c.Distinct) : Disk where
  root := ((Node.alter place f (some d.root)).filter Node.isDir).getD Node.emptyDir
  isDir_root := by
    cases hn : (Node.alter place f (some d.root)).filter Node.isDir with
    | none => rfl
    | some n => exact (Option.filter_eq_some_iff.mp hn).2
  distinct := by
    have h := Node.distinct_alter (p := place) hf (some d.root) (by simpa using d.distinct)
    cases hn : (Node.alter place f (some d.root)).filter Node.isDir with
    | none => exact Node.distinct_emptyDir
    | some n => exact h n (Option.filter_eq_some_iff.mp hn).1
  clock := d.clock

/-- The disk with a node at a place. -/
def put (d : Disk) (place : List Name) (n : Node) (hn : n.Distinct) : Disk :=
  d.alter place (fun _ => some n) (by simp [hn])

/-- The disk without what stood at a place. -/
def erase (d : Disk) (place : List Name) : Disk :=
  d.alter place (fun _ => none) (by simp)

/-- The disk a moment later. -/
def tick (d : Disk) : Disk :=
  { d with clock := ⟨d.clock.nanos + 1000000⟩ }

/-- The disk with a file at a place, written now. -/
def putFile (d : Disk) (place : List Name) (bytes : ByteArray) (executable : Bool) : Disk :=
  (d.put place (.file ⟨bytes, d.clock, executable⟩) (Node.distinct_file _)).tick

/-! ### Following a path -/

/-- Where a path leads. -/
inductive Place where
  /-- To what stands at a place. -/
  | present (place : List Name) (node : Node)
  /-- To a name that is free in a directory. -/
  | absent (dir : List Name) (name : Name)

/-- The place from which a path is followed: the root, or the given directory. -/
def origin (cwd : List Name) (p : Path) : List Name :=
  if p.isAbsolute then [] else cwd

/-- The steps along a path; a separator at its end asks for a directory. -/
def stepsOf (p : Path) : List Path.Step :=
  p.steps ++ if p.hasTrailingSlash then [.stay] else []

/-- Follows steps from a directory.  A symbolic link is left to `jump`, which is given the place
to go on from and the steps; the last one is only followed if `final` is set. -/
def follow (root : Node) (final : Bool)
    (jump : List Name → List Path.Step → Except OsError Place) :
    List Name → List Path.Step → Except OsError Place
  | here, [] =>
    match root.get? here with
    | some n => .ok (.present here n)
    | none => .error .notFound
  | here, .stay :: rest => follow root final jump here rest
  | here, .up :: rest => follow root final jump here.dropLast rest
  | here, .down x :: rest =>
    match root.get? (here ++ [x]) with
    | none => if rest.isEmpty then .ok (.absent here x) else .error .notFound
    | some (.dir ..) => follow root final jump (here ++ [x]) rest
    | some (.link target) =>
      if rest.isEmpty && !final then .ok (.present (here ++ [x]) (.link target))
      else jump (origin here target) (stepsOf target ++ rest)
    | some (.file data) =>
      if rest.isEmpty then .ok (.present (here ++ [x]) (.file data)) else .error .notDirectory

/-- Follows steps from a directory through at most so many symbolic links. -/
def followLinks (root : Node) (final : Bool) :
    Nat → List Name → List Path.Step → Except OsError Place
  | 0, here, steps => follow root final (fun _ _ => .error .tooManyLinks) here steps
  | n + 1, here, steps => follow root final (followLinks root final n) here steps

/-- The number of symbolic links that may be met on the way along a path. -/
def maxLinks : Nat := 40

/-- Where steps lead from a directory. -/
def resolveSteps (d : Disk) (cwd : List Name) (p : Path) (steps : List Path.Step) (final : Bool) :
    Except IoError Place :=
  if p.text.toList.contains '\x00' then .error .nulInPath
  else if p.text.isEmpty then .error (.os .notFound)
  else
    -- a current directory that was removed leads nowhere, not even to itself
    match d.get? (origin cwd p) with
    | some (.dir ..) => (followLinks d.root final maxLinks (origin cwd p) steps).mapError .os
    | _ => .error (.os .notFound)

/-- Where a path leads from a directory.  A symbolic link at its end is followed if `final` is
set. -/
def resolve (d : Disk) (cwd : List Name) (p : Path) (final : Bool) : Except IoError Place :=
  d.resolveSteps cwd p (stepsOf p) final

/-- The place and node that a path leads to. -/
def locate (d : Disk) (cwd : List Name) (p : Path) (final : Bool) :
    Except IoError (List Name × Node) := do
  match ← d.resolve cwd p final with
  | .present place node => pure (place, node)
  | .absent .. => throw (.os .notFound)

/-! ### Questions -/

/-- What a path leads to, through symbolic links. -/
def stat (d : Disk) (cwd : List Name) (p : Path) : Except IoError Node :=
  return (← d.locate cwd p true).2

/-- What a path leads to, a symbolic link at its end not followed. -/
def lstat (d : Disk) (cwd : List Name) (p : Path) : Except IoError Node :=
  return (← d.locate cwd p false).2

/-- Whether a path leads to anything. -/
def pathExists (d : Disk) (cwd : List Name) (p : Path) : Bool :=
  (d.stat cwd p).isOk

/-- Whether a path leads to a directory. -/
def isDir (d : Disk) (cwd : List Name) (p : Path) : Bool :=
  match d.stat cwd p with
  | .ok n => n.isDir
  | .error _ => false

/-- Whether a path leads to a regular file. -/
def isFile (d : Disk) (cwd : List Name) (p : Path) : Bool :=
  match d.stat cwd p with
  | .ok n => n.isFile
  | .error _ => false

/-- The file that a path leads to. -/
def readData (d : Disk) (cwd : List Name) (p : Path) : Except IoError FileData := do
  match ← d.stat cwd p with
  | .file data => pure data
  | .dir .. => throw (.os .isDirectory)
  | .link _ => throw (.os .tooManyLinks)

/-- The bytes of the file that a path leads to. -/
def readFile (d : Disk) (cwd : List Name) (p : Path) : Except IoError ByteArray :=
  return (← d.readData cwd p).bytes

/-- The names in the directory that a path leads to, in its order, with what they stand for. -/
def readDir (d : Disk) (cwd : List Name) (p : Path) : Except IoError (List (Name × Node)) := do
  match ← d.stat cwd p with
  | .dir access es => if access.listable then pure es else throw (.os .permissionDenied)
  | _ => throw (.os .notDirectory)

/-- The path of the place that a path leads to, free of links, `.` and `..`. -/
def canonicalize (d : Disk) (cwd : List Name) (p : Path) : Except IoError Path :=
  return Path.ofNames (← d.locate cwd p true).1

/-- Whether the directory at a place is writable. -/
def isWritable (d : Disk) (place : List Name) : Bool :=
  match d.get? place with
  | some (.dir access _) => access.writable
  | _ => false

/-! ### Changes -/

/-- The place of the file to be written at a path, and whether there is an executable file. -/
def openForWriting (d : Disk) (cwd : List Name) (p : Path) :
    Except IoError (List Name × Bool) := do
  match ← d.resolveSteps cwd p p.steps true with
  | .present place (.file data) =>
    if p.hasTrailingSlash then throw (.os .notDirectory) else pure (place, data.executable)
  | .present _ (.dir ..) => throw (.os .isDirectory)
  | .present _ (.link _) => throw (.os .tooManyLinks)
  | .absent dir name =>
    if p.hasTrailingSlash then throw (.os .isDirectory)
    else if d.isWritable dir then pure (dir ++ [name], false)
    else throw (.os .permissionDenied)

/-- Writes a file.  A symbolic link is followed, a missing file is made. -/
def writeFile (d : Disk) (cwd : List Name) (p : Path) (bytes : ByteArray) :
    Except IoError Disk := do
  let (place, executable) ← d.openForWriting cwd p
  pure (d.putFile place bytes executable)

/-- Makes a directory in one that exists. -/
def makeDir (d : Disk) (cwd : List Name) (p : Path) : Except IoError Disk := do
  match ← d.resolveSteps cwd p p.steps false with
  | .present .. => throw (.os .alreadyExists)
  | .absent dir name =>
    if d.isWritable dir then
      pure (d.put (dir ++ [name]) Node.emptyDir Node.distinct_emptyDir).tick
    else throw (.os .permissionDenied)

/-- Makes a directory and the missing ones above it.  The number bounds the levels. -/
def makeDirAllFrom (cwd : List Name) : Nat → Disk → Path → Except IoError Unit × Disk
  | 0, d, _ => (.error (.os .notFound), d)
  | n + 1, d, p =>
    if p.text.isEmpty then (.ok (), d)
    else
      match d.makeDir cwd p with
      | .ok d' => (.ok (), d')
      | .error e =>
        if e.isNotFound then
          match p.parent? with
          | none => (.error e, d)
          | some parent =>
            -- the path is tried once more below its parent
            match makeDirAllFrom cwd n d parent with
            | (.error e, d') => (.error e, d')
            | (.ok (), d') =>
              match d'.makeDir cwd p with
              | .ok d'' => (.ok (), d'')
              | .error e => (if d'.isDir cwd p then .ok () else .error e, d')
        else (if d.isDir cwd p then .ok () else .error e, d)

/-- Makes a directory and the missing ones above it. -/
def makeDirAll (d : Disk) (cwd : List Name) (p : Path) : Except IoError Unit × Disk :=
  makeDirAllFrom cwd (p.text.length + 1) d p

/-- Removes a file or a symbolic link. -/
def removeFile (d : Disk) (cwd : List Name) (p : Path) : Except IoError Disk := do
  match ← d.locate cwd p false with
  | (_, .dir ..) => throw (.os .isDirectory)
  | (place, _) =>
    if p.hasTrailingSlash then throw (.os .notDirectory)
    else if d.isWritable place.dropLast then pure (d.erase place).tick
    else throw (.os .permissionDenied)

/-- The disk with the directory at a place emptied as far as that can be done. -/
def clear (d : Disk) (place : List Name) : Disk :=
  d.alter place (·.map fun n => n.strip.2) fun o h c hc => by
    obtain ⟨n, hn, rfl⟩ := Option.map_eq_some_iff.mp hc
    exact Node.distinct_strip (h n hn)

/-- Whether a path, a separator at its end aside, leads to a symbolic link. -/
def namesLink (d : Disk) (cwd : List Name) (p : Path) : Bool :=
  match d.resolveSteps cwd p p.steps false with
  | .ok (.present _ node) => node.isLink
  | _ => false

/-- Whether the name that a path ends in, a separator behind it aside, stands in a writable
directory. -/
def isRemovable (d : Disk) (cwd : List Name) (p : Path) : Bool :=
  match d.resolveSteps cwd p p.steps false with
  | .ok (.present place _) => d.isWritable place.dropLast
  | _ => false

/-- What keeps the empty directory that a path leads to from being removed. -/
def obstacleToRemoval (d : Disk) (cwd : List Name) (p : Path) : Option OsError :=
  match p.steps.getLast? with
  | some (.down _) =>
    if !d.isRemovable cwd p then some .permissionDenied
    else if d.namesLink cwd p then some .notDirectory
    else none
  | some .stay => some .invalidArgument
  | some .up => some .notEmpty
  | none => some .busy

/-- Removes a directory with everything in it; of a symbolic link only the link.  The removal stops
at a directory that cannot be listed, and at an entry of one that is not writable.  A directory
that is named by `.` or `..`, or by a symbolic link with a separator behind it, is emptied but
cannot be removed. -/
def removeDirAll (d : Disk) (cwd : List Name) (p : Path) : Except IoError Unit × Disk :=
  match d.locate cwd p false with
  | .error e => (.error e, d)
  | .ok (place, .link _) =>
    if d.isWritable place.dropLast then (.ok (), (d.erase place).tick)
    else (.error (.os .permissionDenied), d)
  | .ok (_, .file _) => (.error (.os .notDirectory), d)
  | .ok (place, .dir access es) =>
    -- the entries are removed before the directory itself is tried
    if (Node.dir access es).strip.1 then
      match d.obstacleToRemoval cwd p with
      | none => (.ok (), (d.erase place).tick)
      | some e => (.error (.os e), (d.clear place).tick)
    else (.error (.os .permissionDenied), (d.clear place).tick)

/-- Whether a path ends in a name. -/
def endsInName (p : Path) : Bool :=
  match p.steps.getLast? with
  | some (.down _) => true
  | _ => false

/-- Whether what stands at one place can be taken out of its directory and put at another place.  A
directory that changes its parent has to be writable itself. -/
def letsMove (d : Disk) (source target : List Name) (node : Node) : Bool :=
  d.isWritable source.dropLast && d.isWritable target.dropLast &&
    (!node.isDir || source.dropLast = target.dropLast || d.isWritable source)

/-- Moves what stands at one path to another; an empty directory or a file there is replaced by
its like. -/
def rename (d : Disk) (cwd : List Name) (source target : Path) : Except IoError Disk := do
  let sourcePlace ← d.resolveSteps cwd source source.steps false
  let targetPlace ← d.resolveSteps cwd target target.steps false
  if !endsInName source || !endsInName target then throw (.os .busy)
  match sourcePlace with
  | .absent .. => throw (.os .notFound)
  | .present s node =>
    let t := match targetPlace with
      | .present place _ => place
      | .absent dir name => dir ++ [name]
    -- used only if the checks below let it
    let move : Disk :=
      match h : d.root.get? s with
      | some n => ((d.erase s).put t n (Node.distinct_of_get? d.distinct h)).tick
      | none => d
    if node.isDir && s.isPrefixOf t && s ≠ t then throw (.os .invalidArgument)
    else if !node.isDir && (source.hasTrailingSlash || target.hasTrailingSlash) then
      throw (.os .notDirectory)
    else
      match targetPlace with
      | .absent .. => if d.letsMove s t node then pure move else throw (.os .permissionDenied)
      | .present place old =>
        if place = s then pure d
        else if !d.letsMove s t node then throw (.os .permissionDenied)
        else
          match node.isDir, old with
          | true, .dir _ [] => pure move
          | true, .dir _ _ => throw (.os .notEmpty)
          | true, _ => throw (.os .notDirectory)
          | false, .dir .. => throw (.os .isDirectory)
          | false, _ => pure move

/-- Copies a file.  The target is emptied before it is written, so a file copied to itself ends
empty. -/
def copyFile (d : Disk) (cwd : List Name) (source target : Path) : Except IoError Disk := do
  let (place, node) ← d.locate cwd source true
  match node with
  | .file data =>
    let (targetPlace, _) ← d.openForWriting cwd target
    let bytes := if targetPlace = place then ByteArray.empty else data.bytes
    pure (d.putFile targetPlace bytes data.executable)
  | _ => throw .notAFile

end Disk

end SuiteGate
