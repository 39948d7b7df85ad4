import SuiteGate.Disk.Walk
import SuiteGate.Error
import SuiteGate.Invocation
/-!
# Operations

An operation acts on the `World`: the disk, the current directory, the directory for temporary
files, the environment of the process, the programs run so far, the warnings logged and the
questions asked so far, and what was written to the terminal.  It ends with a result, with an
error, or in a panic (`Fault`), and leaves a world in each case (`Op`).

Programs are run by a `Runner`, an arbitrary function from an invocation and the world to a
`Reply`.  A runner can change the disk, but not the environment of the process.  Every invocation
is kept with the environment and the disk at its start (`Call`).  `withEnv` runs an operation in a
changed environment and goes back to the earlier one however the operation ends
(`environment_withEnv`).  Going back is itself a series of changes that the system may refuse.
-/

namespace SuiteGate

/-- An invocation that was made, with the environment and the disk at its start. -/
structure Call where
  invocation : Invocation
  environment : Environment
  disk : Disk
deriving Inhabited

/-- What operations act on. -/
structure World where
  disk : Disk
  cwd : List Name
  tempDir : Path
  environment : Environment
  calls : List Call
  warnings : List String
  asked : List String
  printed : ByteArray
  reported : ByteArray
deriving Inhabited

namespace World

/-- A world at the start of a process. -/
def start (disk : Disk) (cwd : List Name) (tempDir : Path) (environment : Environment) : World :=
  ⟨disk, cwd, tempDir, environment, [], [], [], ByteArray.empty, ByteArray.empty⟩

/-- The world with a warning logged. -/
def warn (w : World) (text : String) : World :=
  { w with warnings := w.warnings ++ [text] }

/-- The world with a text written to the terminal. -/
def print (w : World) (text : String) : World :=
  { w with printed := w.printed ++ text.toUTF8 }

end World

/-- What comes of an invocation: the disk after it, how it ended, and what it wrote to the
terminal and the log. -/
structure Reply where
  disk : Disk
  outcome : Except IoError ToolOutput
  printed : ByteArray
  reported : ByteArray
  warnings : List String

/-- Runs programs. -/
abbrev Runner := Invocation → World → Reply

/-- How an operation ends that does not end with a result. -/
inductive Fault where
  | error (e : Error)
  | panic
deriving DecidableEq, Repr, Inhabited

/-- An operation on the world. -/
abbrev Op (α : Type) := ExceptT Fault (StateM World) α

namespace Op

/-- Ends with an error. -/
def fail {α : Type} (e : Error) : Op α :=
  throw (.error e)

/-- Logs a warning. -/
def warn (text : String) : Op Unit :=
  modify fun w => w.warn text

/-- Writes a line to the terminal. -/
def printLine (text : String) : Op Unit :=
  modify fun w => w.print (text ++ "\n")

/-- The result of a computation, or its error. -/
def ofExcept {ε α : Type} (wrap : ε → Error) : Except ε α → Op α
  | .ok a => pure a
  | .error e => fail (wrap e)

/-- Asks the disk, from the current directory. -/
def ask {α : Type} (f : Disk → List Name → α) : Op α := do
  let w ← get
  pure (f w.disk w.cwd)

/-- Asks the disk, from the current directory, what it may refuse. -/
def query {α : Type} (f : Disk → List Name → Except IoError α) : Op α := do
  ofExcept .io (← ask f)

/-- Changes the disk, from the current directory. -/
def change (f : Disk → List Name → Except IoError Disk) : Op Unit := do
  let disk ← query f
  modify fun w => { w with disk }

/-- Changes the disk, from the current directory, as far as that is possible. -/
def changePartly (f : Disk → List Name → Except IoError Unit × Disk) : Op Unit := do
  let (result, disk) ← ask f
  modify fun w => { w with disk }
  ofExcept .io result

/-- Runs an operation and gives its error, if it ends in one, as a result. -/
def attempt {α : Type} (op : Op α) : Op (Except Error α) := fun w =>
  match op.run.run w with
  | (.ok a, w) => (.ok (.ok a), w)
  | (.error (.error e), w) => (.ok (.error e), w)
  | (.error .panic, w) => (.error .panic, w)

/-- Runs an operation and, however it ends, another one after it, whose result does not count. -/
def thenAlways {α : Type} (op : Op α) (after : Op Unit) : Op α := fun w =>
  match op.run.run w with
  | (r, w) => (r, (after.run.run w).2)

/-- The value of a variable of the process. -/
def getVariable (key : String) : Op (Option String) := do
  return (← get).environment[key]?

/-- Changes a variable of the process; the system may refuse. -/
def changeVariable (key : String) (c : Change) : Op Unit := do
  if Environment.accepts key c then
    modify fun w => { w with environment := w.environment.change key c }
  else throw .panic

/-- Runs an operation in the environment with overrides.  Afterwards the environment is restored,
however the operation ended and also if an override was refused. -/
def withEnv {α : Type} (o : Overrides) (op : Op α) : Op α := fun w =>
  let snapshot := w.environment
  let (accepted, environment) := o.apply w.environment
  let w := { w with environment }
  let (r, w) := if accepted then op.run.run w else (.error .panic, w)
  let (restored, environment) := Environment.restore snapshot w.environment
  (if restored then r else .error .panic, { w with environment })

/-- **The environment is as before after `withEnv`,** whatever the operation does, unless going
back is refused. -/
theorem environment_withEnv {α : Type} {o : Overrides} {op : Op α} {w : World}
    (h : ((withEnv o op).run.run w).1 ≠ .error .panic) :
    ((withEnv o op).run.run w).2.environment = w.environment := by
  apply Environment.restore_eq
  refine Decidable.byContradiction fun hrefused => ?_
  exact h (if_neg hrefused)

end Op

/-! ### Asking the user -/

/-- The user, who sees the world: what they are shown before they are waited for, how the wait
ends, and what they answer. -/
structure Prompt where
  shows : String → String := fun _ => ""
  pause : String → World → Except Error Unit
  confirm : String → World → Except Error Bool

namespace Prompt

/-- Shows a message and waits until the user goes on. -/
def wait (prompt : Prompt) (message : String) : Op Unit := do
  let w ← get
  set ({ w with asked := w.asked ++ [message] }.print (prompt.shows message))
  Op.ofExcept id (prompt.pause message w)

/-- Asks the user to say yes or no. -/
def ask (prompt : Prompt) (question : String) : Op Bool := do
  let w ← get
  set { w with asked := w.asked ++ [question] }
  Op.ofExcept id (prompt.confirm question w)

end Prompt

/-! ### Running programs -/

namespace Runner

/-- Runs a program.  An exit code other than zero is no error here. -/
def run (runner : Runner) (i : Invocation) : Op ToolOutput := fun w =>
  let reply := runner i w
  let w := { w with
    disk := reply.disk
    calls := w.calls ++ [⟨i, w.environment, w.disk⟩]
    printed := w.printed ++ reply.printed
    reported := w.reported ++ reply.reported
    warnings := w.warnings ++ reply.warnings }
  match reply.outcome with
  | .ok output => (.ok output, w)
  | .error cause => (.error (.error (.tool (.spawn i.commandLine cause))), w)

/-- Runs a program and fails on any exit code but zero. -/
def runChecked (runner : Runner) (i : Invocation) : Op ToolOutput := do
  let output ← runner.run i
  if output.succeeded then pure output
  else Op.fail (.tool (.nonZeroExit i.commandLine output.code output.stderr))

end Runner

end SuiteGate
