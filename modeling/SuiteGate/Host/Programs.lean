import SuiteGate.Host.Runner
import SuiteGate.Shell.Run
/-!
# The programs of the host

The programs that a tree brings along, scripts of the shell and the utilities they use, are carried
out on its disk (`Host.runner`).  `Host.install` puts the utilities where programs are looked for.
What is proved of runners is proved of `Host.runnerWith` and does not depend on these programs.
-/

namespace SuiteGate.Host

/-! ### Starting -/

/-- The bound on programs that name the program which reads them. -/
def maxInterpreters : Nat := 64

/-- Runs a program in a changed environment: variables are dropped with `-i` and `-u`, and set in
front of its name.  Without a program the environment is written. -/
def runIn (launch : Launch) (s : Start) : List String → Environment → Finish
  | [], e => printenv { s with args := [], environment := e }
  | "-i" :: rest, _ => runIn launch s rest ∅
  | "-" :: rest, _ => runIn launch s rest ∅
  | "-u" :: name :: rest, e => runIn launch s rest (e.erase name)
  | arg :: rest, e =>
    match Shell.splitAssignment arg with
    | (name, some value) => runIn launch s rest (e.insert name value)
    | (name, none) =>
      match find launch (e["PATH"]?.getD defaultSearch)
          { s with name, args := rest, environment := e } with
      | .ok f => f
      | .error err =>
        s.finish (if isMissing err then 127 else 126) []
          (line (s.name ++ ": '" ++ name ++ "': " ++ reason err))

/-- Starts the program in a file.  The number bounds the programs that start each other. -/
def launch : Nat → Launch
  | 0, _, _ => .error (.os .tooManyLinks)
  | n + 1, p, s =>
    match s.disk.stat s.cwd p with
    | .error e => .error e
    | .ok (.file data) =>
      if !data.executable then .error (.os .permissionDenied)
      else
        match Program.ofBytes data.bytes with
        | .script interpreter arg =>
          launch n ⟨interpreter⟩
            { s with name := interpreter, args := arg.toList ++ [p.text] ++ s.args }
        | .utility name =>
          if name = "sh" then .ok (Shell.start (launch n) s)
          else if name = "env" then .ok (runIn (launch n) s s.args s.environment)
          else
            match utility? name with
            | some u => .ok (u s)
            | none => .error (.os .execFormat)
        | .none => .error (.os .execFormat)
    | .ok _ => .error (.os .permissionDenied)

/-- Runs programs on the host. -/
def runner : Runner :=
  runnerWith (spawn (launch maxInterpreters))

/-! ### Setting up -/

/-- The directory of the utilities. -/
def utilityDir : Path := ⟨"/usr/bin"⟩

/-- Puts a utility on a disk. -/
def installUtility (d : Disk) (name : String) : Disk :=
  let p := utilityDir.child name
  match d.openForWriting [] p with
  | .ok (place, _) => d.putFile place (utilityBytes name) true
  | .error _ => d

/-- Puts all utilities and the shell on a disk. -/
def install (d : Disk) : Disk :=
  let d := (d.makeDirAll [] utilityDir).2
  let d := ("sh" :: utilities.map (·.1)).foldl installUtility d
  match Name.ofString? "bin" with
  | some bin => d.put [bin] (.link ⟨"usr/bin"⟩) (by simp [Node.Distinct])
  | none => d

end SuiteGate.Host
