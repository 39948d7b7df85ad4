import SuiteGate.Error
import SuiteGate.Text.Lines
/-!
# Watch modes

What is built after a change (`Mode`), the options that ask for it (`Mode.ofFlags`) and the files
that never count as changed (`Mode.exclusions`).  Each such set of files also has a pattern that
describes it (`Exclusion.pattern`).
-/

namespace SuiteGate.Watch

/-- What is built after a change. -/
inductive Mode where
  /-- Everything. -/
  | full
  /-- A GraalVM with the script launcher. -/
  | graalVm
  /-- The C API and what depends on it. -/
  | noJava
deriving DecidableEq, Repr

/-- A set of paths: those with an ending, or those with an ending and a text before it on the same
line. -/
inductive Exclusion where
  | ending (e : String)
  | partAndEnding (part e : String)
deriving DecidableEq, Repr

namespace Exclusion

/-- An ending as part of a pattern, in which a dot has to be marked. -/
def endingPattern (e : String) : String :=
  Text.replace e "." "\\." ++ "$"

/-- The pattern that describes the set. -/
def pattern : Exclusion → String
  | ending e => ".*" ++ endingPattern e
  | partAndEnding part e => part ++ ".*" ++ endingPattern e

/-- What follows the last line feed. -/
def lastLine (cs : List Char) : List Char :=
  (Text.splitChars '\n' cs).getLastD []

/-- Whether a text belongs to the set. -/
def holds : Exclusion → String → Bool
  | ending e, s => Text.endsWith s e
  | partAndEnding part e, s =>
    Text.endsWith s e &&
      Text.occursIn part.toList (lastLine (s.toList.take (s.length - e.length)))

end Exclusion

namespace Mode

/-- The mode that options ask for; at most one of them may be given. -/
def ofFlags (full graalVm noJava : Bool) : Except UsageError Mode :=
  match full, graalVm, noJava with
  | false, false, _ => .ok .noJava
  | true, false, false => .ok .full
  | false, true, false => .ok .graalVm
  | _, _, _ => .error (.conflictingFlags ["--full", "--graalvm", "--no-java"])

/-- The files that never count as changed. -/
def exclusions : Mode → List Exclusion
  | full => [.ending ".py"]
  | graalVm => [.partAndEnding "mx_" ".py"]
  | noJava => [.ending ".py", .ending ".java"]

/-- The name of a mode. -/
def name : Mode → String
  | full => "Full"
  | graalVm => "GraalVm"
  | noJava => "NoJava"

end Mode

end SuiteGate.Watch
