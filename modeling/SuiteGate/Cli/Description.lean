import SuiteGate.Cli.Commands
import SuiteGate.Disk.Planting
import SuiteGate.Host.Programs
import SuiteGate.Json.Access
import SuiteGate.Json.Parser
/-!
# Described trees

The program works on a tree that is described to it, one entry to a line (`plantings?`).  A line
is a JSON object: `path` says where the entry stands, and `text` makes it a file, `link` a symbolic
link, and neither a directory; a file with a true `exec` can be run.  The described tree becomes
the working directory of a disk with the hosted utilities (`describedWorld`), on which a command is
carried out (`runDescribed?`).
-/

namespace SuiteGate.Cli

/-- The text of a member. -/
def memberText? (name : String) (members : List (JsonText × Json)) : Option String :=
  (Json.valueOf? name members).bind Json.textOf?

/-- Whether a member is true. -/
def memberFlag (name : String) (members : List (JsonText × Json)) : Bool :=
  match Json.valueOf? name members with
  | some (.bool b) => b
  | _ => false

/-- The entry that a document describes. -/
def plantingOf? : Json → Option Planting
  | .obj members => do
    let path ← memberText? "path" members
    match memberText? "text" members, memberText? "link" members with
    | some text, _ => some ⟨⟨path⟩, .file text.toUTF8 (memberFlag "exec" members) none⟩
    | none, some target => some ⟨⟨path⟩, .link ⟨target⟩⟩
    | none, none => some ⟨⟨path⟩, .dir⟩
  | _ => none

/-- The entries that a text describes; empty lines count for nothing. -/
def plantings? (description : String) : Option (List Planting) :=
  ((Text.lines description).filter (· ≠ "")).mapM fun line => Json.parse? line >>= plantingOf?

/-- The place that a described tree is put into. -/
def workPlace : List Name := ["work"].filterMap Name.ofString?

/-- The directory for temporary files beside a described tree. -/
def scratchDir : Path := ⟨"/tmp"⟩

/-- The variables that a command begins with beside a described tree. -/
def describedEnvironment : Environment :=
  (∅ : Environment).insert "PATH" "/usr/bin:/bin"

/-- The world of a described tree. -/
def describedWorld (xs : List Planting) : World :=
  let d := ((Disk.empty ⟨0⟩).makeDirAll [] (Path.ofNames workPlace)).2
  let d := Host.install (d.makeDirAll [] scratchDir).2
  World.start (d.plant workPlace xs) workPlace scratchDir describedEnvironment

/-- Carries out what arguments ask for on a described tree. -/
def runDescribed? (args : List String) (description : String) : Option (Nat × World) := do
  let xs ← plantings? description
  some (run Host.runner args (describedWorld xs))

end SuiteGate.Cli
