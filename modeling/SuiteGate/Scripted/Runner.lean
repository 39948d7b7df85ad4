import SuiteGate.Disk.Planting
import SuiteGate.World
/-!
# Scripted programs

A runner that starts no program but answers from a script (`Scripted.runner`).  The first response
that fits the command line, and has not been used up, changes files and then fails or gives an
output.  A command line that no response fits succeeds without output.
-/

namespace SuiteGate.Scripted

/-- What a script answers to a command line. -/
structure Response where
  /-- A text that occurs in the command line. -/
  pattern : String
  /-- How often the response can be used; without a limit, always. -/
  limit : Option Nat := none
  /-- What becomes of the files before the answer. -/
  changes : List Planting := []
  /-- The error with which the program cannot be started. -/
  spawnError : Option OsError := none
  output : ToolOutput := ToolOutput.success

namespace Response

/-- Whether a response fits a command line after so many uses. -/
def fits (r : Response) (uses : Nat) (line : String) : Bool :=
  Text.contains line r.pattern &&
    match r.limit with
    | some n => decide (uses < n)
    | none => true

/-- How the program ends. -/
def outcome (r : Response) : Except IoError ToolOutput :=
  match r.spawnError with
  | some e => .error (.os e)
  | none => .ok r.output

end Response

/-- Responses with the number of times that each was used. -/
abbrev Script := List (Response × Nat)

/-- The response to a command line, and the script after it. -/
def answer (line : String) : Script → Option Response × Script
  | [] => (none, [])
  | (r, uses) :: rest =>
    if r.fits uses line then (some r, (r, uses + 1) :: rest)
    else
      let (found, rest) := answer line rest
      (found, (r, uses) :: rest)

/-- A script that has not been used. -/
def unused (rs : List Response) : Script :=
  rs.map fun r => (r, 0)

/-- The script after some command lines. -/
def after (rs : List Response) (lines : List String) : Script :=
  lines.foldl (fun script line => (answer line script).2) (unused rs)

/-- Answers from a script; files are changed below a directory. -/
def runner (base : List Name) (rs : List Response) : Runner := fun i w =>
  let earlier := w.calls.map fun c => c.invocation.commandLine
  match (answer i.commandLine (after rs earlier)).1 with
  | some r => ⟨w.disk.plant base r.changes, r.outcome, ByteArray.empty, ByteArray.empty, []⟩
  | none => ⟨w.disk, .ok ToolOutput.success, ByteArray.empty, ByteArray.empty, []⟩

end SuiteGate.Scripted
