import SuiteGate.World
/-!
# Programs for developers

Two programs are used where they can be found: the Eclipse compiler, a jar, and Eclipse itself.
They are looked for in the directory of the suite and then in the one above it, among the entries
in the order of their names.  A variable of the environment that names a program is never
replaced (`missingOverrides`).
-/

namespace SuiteGate.Developer

/-- The directories that are searched. -/
def searchDirs (suiteDir : Path) : List Path :=
  suiteDir :: suiteDir.parent?.toList

/-- The order of paths, component by component. -/
def componentKey : Path.Component → List Nat
  | .root => [0]
  | .current => [1]
  | .parent => [2]
  | .normal name => 3 :: name.toUTF8.toList.map UInt8.toNat

/-- Whether the key of a component comes before another. -/
def keyLt (a b : List Nat) : Bool :=
  a.lex b fun m n => decide (m < n)

/-- Whether a path comes before another in the order of components, or they are the same. -/
def pathLe (p q : Path) : Bool :=
  !(q.components.map componentKey).lex (p.components.map componentKey) keyLt

/-- The entries of a directory, in order; what is no directory has none. -/
def entries (d : Disk) (cwd : List Name) (dir : Path) : List Path :=
  match d.readDir cwd dir with
  | .ok es => (es.map fun e => dir.child e.1.text).mergeSort pathLe
  | .error _ => []

/-- The entries of all directories that are searched. -/
def candidates (d : Disk) (cwd : List Name) (suiteDir : Path) : List Path :=
  (searchDirs suiteDir).flatMap (entries d cwd)

/-- Whether a path ends in the name of an Eclipse compiler. -/
def isCompiler (p : Path) : Bool :=
  match p.fileName? with
  | some name => Text.startsWith name "ecj-" && Text.endsWith name ".jar"
  | none => false

/-- The Eclipse compiler. -/
def findCompiler (d : Disk) (cwd : List Name) (suiteDir : Path) : Option Path :=
  (candidates d cwd suiteDir).find? isCompiler

/-- The Eclipse program, in a directory of its name. -/
def findEclipse (d : Disk) (cwd : List Name) (suiteDir : Path) : Option Path :=
  (((candidates d cwd suiteDir).filter fun p =>
    d.isDir cwd p && p.fileName? = some "eclipse").map (·.child "eclipse")).find?
      (d.pathExists cwd)

/-- The variable that names the Eclipse compiler. -/
def compilerVariable : String := "JDT"

/-- The variable that names the Eclipse program. -/
def eclipseVariable : String := "ECLIPSE_EXE"

/-- Sets a variable to a path that was found, unless the environment sets the variable. -/
def choose (e : Environment) (key : String) (found : Option Path) (o : Overrides) : Overrides :=
  if e.contains key then o
  else
    match found with
    | some p => o.set key p.text
    | none => o

/-- The overrides that set those of the two variables that are not set and whose programs can be
found. -/
def missingOverrides (d : Disk) (cwd : List Name) (e : Environment) (suiteDir : Path) :
    Overrides :=
  choose e eclipseVariable (findEclipse d cwd suiteDir)
    (choose e compilerVariable (findCompiler d cwd suiteDir) Overrides.empty)

/-- The Eclipse program that the environment names, or else the one that is found. -/
def eclipse? (d : Disk) (cwd : List Name) (e : Environment) (suiteDir : Path) : Option Path :=
  match e[eclipseVariable]? with
  | some p => some ⟨p⟩
  | none => findEclipse d cwd suiteDir

end SuiteGate.Developer
