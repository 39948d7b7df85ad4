import SuiteGate.Host.Session
import SuiteGate.World
/-!
# Runners of programs

How an invocation is carried out (`Host.runnerWith`): its program is looked for on the disk and
started in its directory and environment, and what it writes is kept or shown as the invocation
asks.  What a program that is started does is left open.
-/

namespace SuiteGate.Host

/-! ### Starting -/

/-- What is asked for before a program is started: the value that it is to have of a variable instead
of that of its parent, or that it is to have none. -/
abbrev Requests := NameMap (Option String)

namespace Requests

/-- One more request; it takes the place of an earlier one for the variable. -/
def add (r : Requests) (key : String) (c : Change) : Requests :=
  r.insert key c.value?

/-- The requests that overrides make. -/
def of (o : Overrides) : Requests :=
  o.toList.foldl (fun r p => r.add p.1 p.2) ∅

/-- An environment with one request granted. -/
def grant (e : Environment) (key : String) : Option String → Environment
  | some v => e.insert key v
  | none => e.erase key

/-- The environment of the program, which has all other variables from its parent. -/
def environment (r : Requests) (parent : Environment) : Environment :=
  r.toList.foldl (fun e p => grant e p.1 p.2) parent

end Requests

/-- Whether a text holds a NUL. -/
def hasNul (s : String) : Bool :=
  s.toList.contains '\x00'

/-- Whether an invocation holds a NUL, which no program can be handed. -/
def mentionsNul (i : Invocation) : Bool :=
  hasNul i.program || i.args.any hasNul || (i.cwd.any fun p => hasNul p.text) ||
    i.overrides.toList.any fun p => hasNul p.1 || match p.2 with
      | .set v => hasNul v
      | .remove => false

/-- The directory that a program is started in. -/
def startDir (w : World) (dir : Option Path) : Except IoError (List Name) :=
  match dir with
  | none => .ok w.cwd
  | some p =>
    match w.disk.locate w.cwd p true with
    | .error e => .error e
    | .ok (place, .dir ..) => .ok place
    | .ok _ => .error (.os .notDirectory)

/-- The directories in which the program of an invocation is looked for: an override of them
counts, too. -/
def searchFor (w : World) (i : Invocation) : String :=
  let environment := match i.overrides.changes["PATH"]? with
    | some c => w.environment.change "PATH" c
    | none => w.environment
  environment["PATH"]?.getD defaultSearch

/-- What the program of an invocation is started with. -/
def startOf (i : Invocation) (w : World) (cwd : List Name) : Start :=
  ⟨w.disk, cwd, (Requests.of i.overrides).environment w.environment, i.program, i.args, []⟩

/-- What a program has that is started with that: it reads the names of its variables anew. -/
def Start.received (s : Start) : Start :=
  { s with environment := s.environment.received }

/-- Starts the program of an invocation. -/
def spawn (launch : Launch) (i : Invocation) (w : World) : Except IoError Finish := do
  if mentionsNul i then throw .nulInCommand
  let cwd ← startDir w i.cwd
  find launch (searchFor w i) (startOf i w cwd).received

/-! ### Output -/

/-- The lines of a text that was read line by line: each ends in a line feed, and a carriage return
before it is gone. -/
def asLines (s : String) : String :=
  String.join ((Text.lines s).map (· ++ "\n"))

/-- The lines of the output of a program that stand before the first one that is not text. -/
def linesOfText (bytes : ByteArray) : String :=
  let lines := (bytes.toList.splitOn 10).map fun line => Text.decode? ⟨line.toArray⟩
  asLines (String.join ((lines.takeWhile Option.isSome).reduceOption.map (· ++ "\n")))

/-- The warning about a program that failed. -/
def failureWarning (o : ToolOutput) : List String :=
  if o.succeeded then [] else ["exited unsuccessfully"]

/-- What comes of a program that was started. -/
def replyOf (mode : OutputMode) (f : Finish) : Reply :=
  let results := f.stream out
  let messages := f.stream err
  let ended (stdout stderr : String) (printed reported : ByteArray) : Reply :=
    let o : ToolOutput := ⟨f.ending.code?, stdout, stderr⟩
    ⟨f.disk, .ok o, printed, reported, failureWarning o⟩
  match mode with
  | .inherit => ended "" "" results messages
  | .capture =>
    ended (Text.decodeLossy results) (Text.decodeLossy messages) ByteArray.empty ByteArray.empty
  | .tee =>
    match Text.decode? results with
    | none => ⟨f.disk, .error .notText, (linesOfText results).toUTF8, messages, []⟩
    | some s =>
      let lines := asLines s
      ended lines (Text.decodeLossy messages) lines.toUTF8 messages

/-- Runs programs that are started in any way. -/
def runnerWith (start : Invocation → World → Except IoError Finish) : Runner := fun i w =>
  match start i w with
  | .error e => ⟨w.disk, .error e, ByteArray.empty, ByteArray.empty, []⟩
  | .ok f => replyOf i.output f

end SuiteGate.Host
