import SuiteGate.Host.Session
import SuiteGate.Shell.Pattern
import SuiteGate.Shell.Syntax
/-!
# A running script

What a script has come to (`Shell.Session`): its variables and arguments, where it is, and what it
has written.  Steps of a script are `Shell.Act`s.
-/

namespace SuiteGate.Shell

/-- How a script goes on behind a command. -/
inductive Flow where
  | onward
  /-- Out of so many loops. -/
  | leaving (loops : Nat)
  /-- To the next round of the loop so many levels out. -/
  | repeating (loops : Nat)
  /-- Out of a function, or of a script that was read into this one. -/
  | returning
  | ended (ending : Host.Ending)
deriving DecidableEq

/-- Where the output of a stream goes. -/
inductive Target where
  | stream (n : Nat)
  | file (p : Path)
  | nowhere

/-- The targets of streams; one that is not mentioned goes where it went. -/
abbrev Targets := List (Nat × Target)

/-- The target of a stream. -/
def targetOf (ts : Targets) (n : Nat) : Target :=
  (ts.lookup n).getD (.stream n)

/-- What a script has come to. -/
structure Session where
  disk : Disk
  cwd : List Name
  input : List UInt8
  values : NameMap String
  exported : List String
  /-- The name that the script goes by. -/
  name : String
  args : List String
  status : Nat := 0
  /-- The status of the script whose output was last put into a word. -/
  inner : Option Nat := none
  line : Nat := 1
  written : List (Nat × List UInt8) := []
  /-- The targets that streams were given for the rest of the script. -/
  standing : Targets := []
  flow : Flow := .onward
  /-- Whether the script ends when a command fails. -/
  strict : Bool := false
  /-- Whether a parameter without a value is an error. -/
  wary : Bool := false
  /-- Whether a command only decides how to go on. -/
  deciding : Bool := false
  /-- The number of loops around the command. -/
  loops : Nat := 0
  functions : List (String × Command) := []
  /-- The values that the local variables of a function had before it. -/
  kept : List (String × Option String) := []
  /-- The scripts for signals; the one for 0 is for the end of the script. -/
  traps : List (Nat × String) := []
  /-- Scripts for signals that have come. -/
  due : List String := []

/-- A step of a script. -/
abbrev Act (α : Type) := StateM Session α

/-- The number that the shell has among the programs of the host. -/
def ownNumber : String := "4242"

/-- The separators of fields by default. -/
def defaultSeparators : String := " \t\n"

namespace Session

/-- The variables that programs see. -/
def environment (s : Session) : Environment :=
  s.values.filter fun k _ => s.exported.contains k

/-- The separators of fields. -/
def separators (s : Session) : List Char :=
  (s.values["IFS"]?.getD defaultSeparators).toList

/-- The value of a parameter. -/
def value? (s : Session) (name : String) : Option String :=
  match name with
  | "#" => some (toString s.args.length)
  | "?" => some (toString s.status)
  | "$" => some ownNumber
  | "0" => some s.name
  | "-" => some ((if s.strict then "e" else "") ++ if s.wary then "u" else "")
  | "!" => none
  | "@" => if s.args.isEmpty then none else some (Text.join " " s.args)
  | "*" => if s.args.isEmpty then none else some (Text.join " " s.args)
  | name =>
    match name.toNat? with
    | some n => s.args[n - 1]?
    | none => s.values[name]?

/-- What was written to a stream. -/
def stream (s : Session) (n : Nat) : List UInt8 :=
  (s.written.filter (·.1 = n)).flatMap (·.2)

end Session

/-- Sends what was written to a stream to its target. -/
def deliver (ts : Targets) (w : Nat × List UInt8) : Act Unit :=
  modify fun s =>
    match targetOf ts w.1 with
    | .stream n => if w.2.isEmpty then s else { s with written := s.written ++ [(n, w.2)] }
    | .nowhere => s
    | .file p =>
      let old := (s.disk.readFile [] p).toOption.getD ByteArray.empty
      match s.disk.writeFile [] p (old ++ ⟨w.2.toArray⟩) with
      | .ok d => { s with disk := d }
      | .error _ => s

/-- Writes bytes to a stream. -/
def write (stream : Nat) (bs : List UInt8) : Act Unit := do
  deliver (← get).standing (stream, bs)

/-- Runs a step and takes what it writes. -/
def gathering (act : Act Unit) : Act (List (Nat × List UInt8)) := do
  let before ← get
  set { before with written := [], standing := [] }
  act
  let after : Session ← get
  set { after with written := before.written, standing := before.standing }
  return after.written

/-- Sets the status. -/
def setStatus (n : Nat) : Act Unit :=
  modify fun s => { s with status := n }

/-- Gives a variable a value. -/
def assign (name value : String) : Act Unit :=
  modify fun s => { s with values := s.values.insert name value }

/-- Writes a message with the place in the script. -/
def complain (message : String) : Act Unit := do
  let s ← get
  write Host.err (s.name ++ ": " ++ toString s.line ++ ": " ++ message ++ "\n").toUTF8.toList

/-- Ends the script with a message. -/
def abort (message : String) : Act Unit := do
  complain message
  modify fun s => { s with flow := .ended (.code 2), status := 2 }

/-- Whether the script goes on. -/
def goesOn : Act Bool := do
  return (← get).flow = .onward

/-! ### Fields -/

/-- Where a character of an expanded word comes from. -/
inductive Origin where
  | quoted
  | script
  | value
deriving DecidableEq

/-- A part of an expanded word. -/
inductive Glyph where
  | char (c : Char) (origin : Origin)
  /-- Nothing, but so that there is a field. -/
  | presence
  /-- The border between two fields. -/
  | border

/-- The glyphs of a value. -/
def glyphsOf (origin : Origin) (s : String) : List Glyph :=
  (if origin = .quoted then [.presence] else []) ++ s.toList.map (Glyph.char · origin)

/-- Characters, those with a mark standing for themselves only. -/
abbrev Field := List (Char × Bool)

/-- The characters of glyphs in one field. -/
def fieldOf (gs : List Glyph) : Field :=
  gs.filterMap fun g => match g with
    | .char c origin => some (c, decide (origin = .quoted))
    | .presence => none
    | .border => some (' ', true)

/-- The text of a field. -/
def textOf (f : Field) : String :=
  String.ofList (f.map (·.1))

/-- Cuts glyphs into fields; `current` is the field that has been started. -/
def cut (separators : List Char) : Option Field → List Glyph → List Field
  | current, [] => current.toList
  | current, .border :: gs => current.toList ++ cut separators none gs
  | current, .presence :: gs => cut separators (some (current.getD [])) gs
  | current, .char c origin :: gs =>
    if origin = .value && separators.contains c then
      if " \t\n".toList.contains c then current.toList ++ cut separators none gs
      else current.getD [] :: cut separators none gs
    else cut separators (some (current.getD [] ++ [(c, decide (origin = .quoted))])) gs

/-! ### Names of files -/

/-- The names in a directory that match a pattern; one that starts with a dot only if the pattern
does, too. -/
def matching (d : Disk) (cwd : List Name) (dir : String) (pattern : Pattern) : List String :=
  match d.readDir cwd ⟨if dir.isEmpty then "." else dir⟩ with
  | .error _ => []
  | .ok es =>
    let names := es.map (·.1.text)
    let shown := names.filter fun n =>
      (n.toList.head? ≠ some '.' || pattern.head? = some (.char '.')) && pattern.matches? n.toList
    shown.mergeSort (· ≤ ·)

/-- The parts of a field between separators of a path. -/
def pathParts : Field → List Field
  | [] => [[]]
  | c :: cs =>
    if c.1 = '/' then [] :: pathParts cs
    else
      match pathParts cs with
      | [] => [[c]]
      | p :: ps => (c :: p) :: ps

/-- The paths behind a start that parts of a pattern lead to. -/
def paths (d : Disk) (cwd : List Name) : String → List Field → List String
  | start, [] => [start]
  | start, [part] =>
    let p := Pattern.ofChars part
    if p.isProper then (matching d cwd start p).map (start ++ ·)
    else if (d.lstat cwd ⟨start ++ textOf part⟩).isOk then [start ++ textOf part]
    else []
  | start, part :: rest =>
    let p := Pattern.ofChars part
    if p.isProper then
      (matching d cwd start p).flatMap fun n => paths d cwd (start ++ n ++ "/") rest
    else paths d cwd (start ++ textOf part ++ "/") rest

/-- The texts that a field stands for: the paths that match it, or itself. -/
def expandPaths (d : Disk) (cwd : List Name) (f : Field) : List String :=
  if (Pattern.ofChars f).isProper then
    match paths d cwd "" (pathParts f) with
    | [] => [textOf f]
    | found => found
  else [textOf f]

/-- The texts that glyphs stand for. -/
def textsOf (s : Session) (gs : List Glyph) : List String :=
  (cut s.separators none gs).flatMap (expandPaths s.disk s.cwd)

end SuiteGate.Shell
