import SuiteGate.Gate.Run
/-!
# Failures of commands

How a command of the command line fails (`Cli.Failure`), and the exit code that says so
(`Failure.exitCode`): 2 for the request or the configuration, 3 for a task of the gate whatever its
error was, 4 for a program, 5 for a staleness check, and 1 for everything else.
-/

namespace SuiteGate.Cli

/-- How a command fails. -/
inductive Failure where
  /-- A task of the gate failed. -/
  | gate (task : String) (cause : Error)
  /-- An operation failed. -/
  | operation (e : Error)
  /-- The request makes no sense. -/
  | usage (e : UsageError)
  /-- The configuration cannot be used. -/
  | config (e : ConfigError)
  /-- A program failed outside an operation. -/
  | tool (e : ToolError)
  /-- A staleness check failed outside an operation. -/
  | staleness (e : StalenessError)
  /-- A file operation failed outside an operation. -/
  | io (e : IoError)
  /-- Something else failed. -/
  | other (message : String)
  /-- The program had to stop. -/
  | panic
deriving DecidableEq, Repr

namespace Failure

/-- The exit code after success. -/
def success : Nat := 0

/-- The exit code after the failure of an operation. -/
def codeOfError : Error → Nat
  | .config _ => 2
  | .usage _ => 2
  | .tool _ => 4
  | .staleness _ => 5
  | _ => 1

/-- The exit code after a failure. -/
def exitCode : Failure → Nat
  | gate .. => 3
  | operation e => codeOfError e
  | usage _ => 2
  | config _ => 2
  | panic => 101
  | _ => 1

/-- The texts of a failure and of the errors behind it. -/
def chain : Failure → List String
  | gate task cause => Gate.Failure.taskMessage task cause :: cause.chain
  | operation e => e.chain
  | usage e => [e.message]
  | config e => e.chain
  | tool e => e.chain
  | staleness e => e.chain
  | io e => e.chain
  | other m => [m]
  | panic => ["panic"]

/-- The line that reports a failure. -/
def line (f : Failure) : String :=
  "✗ " ++ Text.join ": " f.chain ++ "\n"

end Failure

end SuiteGate.Cli
