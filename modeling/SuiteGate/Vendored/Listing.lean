import SuiteGate.Disk.Walk
import SuiteGate.Text.Lines
/-!
# Lists of inlined files

Which files of the suite are taken over from elsewhere is read from a list with a path and a
licence to a line (`Listing.parse`).  An inlined file has a name in its source tree
(`sourceName?`), and the file of that name is looked for in a walk in the order of names
(`findSource`).
-/

namespace SuiteGate.Vendored

/-- The files taken over from either source tree. -/
structure Listing where
  cpython : List Path
  pypy : List Path
deriving DecidableEq, Repr

/-- The path and the licence in a line that has both. -/
def lineFields? (line : String) : Option (Path × String) :=
  match Text.split ',' line with
  | path :: licence :: _ => some (⟨path⟩, licence)
  | _ => none

namespace Listing

/-- The paths with a licence, in the order of the lines. -/
def withLicence (licence : String) (text : String) : List Path :=
  (((Text.lines text).filterMap lineFields?).filter (·.2 = licence)).map Prod.fst

/-- Reads a list of paths and licences. -/
def parse (text : String) : Listing :=
  ⟨withLicence "python.copyright" text, withLicence "pypy.copyright" text⟩

end Listing

/-- The files whose name differs from that in their source tree. -/
def renames : List (String × String) :=
  [("_memoryview.c", "memoryobject.c"), ("_cpython_sre.c", "_sre.c"),
   ("_cpython_unicodedata.c", "unicodedata.c"), ("_bz2.c", "_bz2module.c"),
   ("_mmap.c", "mmapmodule.c")]

/-- Files that are inlined although no list has them. -/
def extraFiles : List Path :=
  [⟨"graalpython/lib-python/3/_md5.py"⟩, ⟨"graalpython/lib-python/3/_sha1.py"⟩,
   ⟨"graalpython/lib-python/3/_sha256.py"⟩, ⟨"graalpython/lib-python/3/_sha512.py"⟩]

/-- The name of an inlined file in its source tree. -/
def sourceName? (inlined : Path) : Option String :=
  inlined.fileName?.map fun name => (renames.lookup name).getD name

/-- Whether a file only holds the code of tests. -/
def isTestCode (name : String) : Bool :=
  Text.startsWith name "test_" || Text.endsWith name "_tests.py"

/-- The name of what a walk came by; at the start of the walk it is that of the path. -/
def itemName (item : WalkItem) : String :=
  match item.below.getLast? with
  | some name => name.text
  | none => item.path.fileName?.getD item.path.text

/-- The first regular file of a name in a walk; what cannot be read is passed over. -/
def firstNamed (name : String) (walk : Walk) : Option Path :=
  walk.findSome? fun
    | .ok item => if item.node.isFile && itemName item = name then some item.path else none
    | .error _ => none

/-- The first regular file of a name in a tree, in the order of names. -/
def findSource (d : Disk) (cwd : List Name) (root : Path) (name : String) : Option Path :=
  firstNamed name (d.sortedWalk cwd root)

end SuiteGate.Vendored
