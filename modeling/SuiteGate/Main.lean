import SuiteGate.Cli.Description
/-!
# The program

Reads the description of a tree from standard input, carries out the command of the arguments on
it, and writes what the command wrote.  The exit code is that of the command; a description that
cannot be read counts as misuse.
-/

namespace SuiteGate.Cli

/-- Reads a stream to its end. -/
partial def readAll (input : IO.FS.Stream) (read : String) : IO String := do
  let line ← input.getLine
  if line.isEmpty then pure read else readAll input (read ++ line)

/-- Carries out a command on the tree described on a stream. -/
def serve (args : List String) (input output messages : IO.FS.Stream) : IO UInt32 := do
  match runDescribed? args (← readAll input "") with
  | some (code, w) =>
    output.write w.printed
    messages.write w.reported
    pure code.toUInt32
  | none =>
    messages.putStrLn "✗ the description of the tree cannot be read"
    pure 2

end SuiteGate.Cli

/-- Runs the program. -/
def main (args : List String) : IO UInt32 := do
  SuiteGate.Cli.serve args (← IO.getStdin) (← IO.getStdout) (← IO.getStderr)
