import SuiteGate.Disk.Basic
import SuiteGate.Environment
import SuiteGate.Text.Utf8
/-!
# Programs of the host

What a program is started with (`Host.Start`) and what it leaves (`Host.Finish`), and how a file is
recognised as a program (`Host.Program.ofBytes`): a script names the program that reads it in its
first line, and a utility is a file with its own mark.
-/

namespace SuiteGate.Host

/-- What a program is started with. -/
structure Start where
  disk : Disk
  cwd : List Name
  environment : Environment
  /-- The name that it is called by. -/
  name : String
  args : List String
  input : List UInt8

/-- How a program ended. -/
inductive Ending where
  | code (n : Nat)
  | signal (n : Nat)
deriving DecidableEq, Repr, Inhabited

/-- The exit code, if there is one. -/
def Ending.code? : Ending → Option Int
  | code n => some n
  | signal _ => none

/-- The status that a shell gives an ending. -/
def Ending.status : Ending → Nat
  | code n => n
  | signal n => 128 + n

/-- What a program leaves: the disk, its ending, the input it did not read, and what it wrote to
which stream. -/
structure Finish where
  disk : Disk
  ending : Ending
  input : List UInt8
  written : List (Nat × List UInt8)
deriving Inhabited

/-- The number of the stream for results. -/
def out : Nat := 1

/-- The number of the stream for messages. -/
def err : Nat := 2

/-- All that was written to a stream. -/
def Finish.stream (f : Finish) (n : Nat) : ByteArray :=
  ⟨((f.written.filter (·.1 = n)).flatMap (·.2)).toArray⟩

/-- What a file is as a program. -/
inductive Program where
  | utility (name : String)
  | script (interpreter : String) (arg : Option String)
  | none
deriving DecidableEq, Repr

/-- The mark at the start of a utility. -/
def utilityMark : List Char :=
  ['\x7f', 'E', 'L', 'F', '\n']

/-- The bytes of a utility. -/
def utilityBytes (name : String) : ByteArray :=
  (String.ofList utilityMark ++ name).toUTF8

/-- The program in the first line of a script. -/
def Program.ofFirstLine (line : List Char) : Program :=
  let isGap (c : Char) : Bool := c = ' ' || c = '\t'
  let trimmed := ((line.dropWhile isGap).reverse.dropWhile isGap).reverse
  let interpreter := trimmed.takeWhile (!isGap ·)
  let arg := (trimmed.drop interpreter.length).dropWhile isGap
  if interpreter.isEmpty then .none
  else .script (String.ofList interpreter) (if arg.isEmpty then .none else some (String.ofList arg))

/-- What bytes are as a program; only their start counts. -/
def Program.ofBytes (bytes : ByteArray) : Program :=
  match (Text.decodeLossy (bytes.extract 0 256)).toList.takeWhile (· ≠ '\x00') with
  | '#' :: '!' :: rest => ofFirstLine (rest.takeWhile (· ≠ '\n'))
  | cs =>
    if utilityMark.isPrefixOf cs then .utility (String.ofList (cs.drop utilityMark.length))
    else .none

/-! ### Starting programs -/

/-- Starts the program in a file. -/
abbrev Launch := Path → Start → Except IoError Finish

/-- The directories where programs are looked for if the environment does not say. -/
def defaultSearch : String := "/bin:/usr/bin"

/-- The paths where a program may be; a name with a separator is a path already. -/
def candidates (search name : String) : List Path :=
  if name.toList.contains '/' then [⟨name⟩]
  else (Text.split ':' search).map fun dir => if dir.isEmpty then ⟨name⟩ else ⟨dir ++ "/" ++ name⟩

/-- Whether the search goes on behind an error. -/
def isMissing : IoError → Bool
  | .os e => e = OsError.notFound || e = OsError.notDirectory
  | _ => false

/-- Starts the first of some programs that can be started.  A denied permission is kept in mind;
otherwise the last error counts. -/
def firstOf (launch : Launch) (start : Start) (denied : Bool) (last : IoError) :
    List Path → Except IoError Finish
  | [] => .error (if denied then .os .permissionDenied else last)
  | p :: ps =>
    match launch p start with
    | .ok f => .ok f
    | .error e =>
      if e = .os .permissionDenied then firstOf launch start true e ps
      else if isMissing e then firstOf launch start denied e ps
      else .error e

/-- Looks for a program and starts it. -/
def find (launch : Launch) (search : String) (start : Start) : Except IoError Finish :=
  if start.name.isEmpty then .error (.os .notFound)
  else firstOf launch start false (.os .notFound) (candidates search start.name)

end SuiteGate.Host
