import SuiteGate.Disk.Walk
/-!
# Where configurations are

A configuration file has one of a few names (`Config.fileNames`) and lies in the directory where
the search starts or in one above it, there either directly or in a directory called `mx.` and the
name of a suite (`Config.find?`).  `Config.baseDir` is the directory that the file speaks of.
-/

namespace SuiteGate.Config

/-- The names of configuration files; an earlier one is preferred. -/
def fileNames : List String :=
  ["pymx.toml", "pymx.yaml", ".pymx.toml", ".pymx.yaml"]

/-- Whether a name is that of a directory which a suite keeps for its settings. -/
def isSuiteDirName (name : String) : Bool :=
  ['m', 'x', '.'].isPrefixOf name.toList

/-- The directories in a directory that suites keep for their settings, sorted by name. -/
def suiteDirs (d : Disk) (cwd : List Name) (dir : Path) : List Path :=
  match d.readDir cwd dir with
  | .ok entries =>
    let names := entries.map (·.1) |>.filter fun n =>
      isSuiteDirName n.text && d.isDir cwd (dir.child n.text)
    (names.mergeSort Node.nameLe).map fun n => dir.child n.text
  | .error _ => []

/-- The places of configuration files in a directory, in the order of preference. -/
def candidates (d : Disk) (cwd : List Name) (dir : Path) : List Path :=
  let inDirs := suiteDirs d cwd dir
  fileNames.map dir.child ++ fileNames.flatMap fun name => inDirs.map (·.child name)

/-- The first configuration file in a directory or above it.  The number bounds the
directories. -/
def findFrom (d : Disk) (cwd : List Name) : Nat → Path → Option Path
  | 0, _ => none
  | n + 1, dir =>
    match (candidates d cwd dir).find? (d.pathExists cwd) with
    | some p => some p
    | none => dir.parent?.bind (findFrom d cwd n)

/-- The configuration file for a directory. -/
def find? (d : Disk) (cwd : List Name) (dir : Path) : Option Path :=
  findFrom d cwd (dir.text.length + 1) dir

/-- The directory that a configuration file speaks of: the one that holds it, or the one above if
that is a directory which a suite keeps for its settings. -/
def baseDir (file : Path) : Path :=
  let dir := file.parent?.getD ⟨"."⟩
  match dir.parent? with
  | some above => if dir.fileName?.any isSuiteDirName then above else dir
  | none => dir

end SuiteGate.Config
