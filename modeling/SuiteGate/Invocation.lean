import SuiteGate.Environment
import SuiteGate.Path
import SuiteGate.Text.Blank
import SuiteGate.Text.Lines
/-!
# Invocations and what they print

A request to run a program (`Invocation`) names the program, its arguments, the directory it runs
in, the overrides of its environment and what becomes of its output.  What a finished program
leaves is a `ToolOutput`.
-/

namespace SuiteGate

/-- What becomes of the output of a program. -/
inductive OutputMode where
  /-- It goes to the terminal. -/
  | inherit
  /-- It is kept. -/
  | capture
  /-- It goes to the terminal and is kept. -/
  | tee
deriving DecidableEq, Repr, Inhabited

/-- A request to run a program. -/
structure Invocation where
  program : String
  args : List String
  cwd : Option Path
  overrides : Overrides
  output : OutputMode
deriving Inhabited

namespace Invocation

/-- A program without arguments, run in the current directory with output on the terminal. -/
def of (program : String) : Invocation :=
  ⟨program, [], none, Overrides.empty, .inherit⟩

/-- With one more argument. -/
def arg (i : Invocation) (a : String) : Invocation :=
  { i with args := i.args ++ [a] }

/-- With more arguments. -/
def withArgs (i : Invocation) (as : List String) : Invocation :=
  { i with args := i.args ++ as }

/-- Run in a directory. -/
def inDir (i : Invocation) (dir : Path) : Invocation :=
  { i with cwd := some dir }

/-- With a variable set. -/
def set (i : Invocation) (key value : String) : Invocation :=
  { i with overrides := i.overrides.set key value }

/-- With a variable removed. -/
def unset (i : Invocation) (key : String) : Invocation :=
  { i with overrides := i.overrides.remove key }

/-- With more overrides, which win. -/
def extendEnv (i : Invocation) (o : Overrides) : Invocation :=
  { i with overrides := i.overrides.extend o }

/-- With output kept. -/
def captured (i : Invocation) : Invocation :=
  { i with output := .capture }

/-- With output on the terminal and kept. -/
def teed (i : Invocation) : Invocation :=
  { i with output := .tee }

/-- The program and its arguments with blanks between them. -/
def commandLine (i : Invocation) : String :=
  Text.join " " (i.program :: i.args)

end Invocation

/-- What a finished program leaves: its exit code, none if a signal ended it, and the output that
was kept. -/
structure ToolOutput where
  code : Option Int
  stdout : String
  stderr : String
deriving DecidableEq, Repr, Inhabited

namespace ToolOutput

/-- Success without output. -/
def success : ToolOutput := ⟨some 0, "", ""⟩

/-- An exit code without output. -/
def failure (code : Int) : ToolOutput := ⟨some code, "", ""⟩

/-- Whether the program succeeded. -/
def succeeded (o : ToolOutput) : Bool :=
  o.code = some 0

/-- The last line of the output that is not blank, trimmed. -/
def lastLine? (o : ToolOutput) : Option String :=
  (((Text.lines o.stdout).map Text.trim).filter (· ≠ "")).getLast?

/-- Both streams, the standard error after the standard output. -/
def combined (o : ToolOutput) : String :=
  o.stdout ++ o.stderr

end ToolOutput

end SuiteGate
