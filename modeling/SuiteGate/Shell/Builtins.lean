import SuiteGate.Host.Utilities
import SuiteGate.Shell.Session
/-!
# Commands inside the shell

The commands that the shell does itself because they are about the script (`Shell.builtin?`):
variables, arguments, directories, loops and the end of the script.
-/

namespace SuiteGate.Shell

/-- The status that an argument spells. -/
def statusOf? (arg : String) : Option Nat :=
  arg.toNat?.map (· % 256)

/-- Complains about an argument that should be a number, and ends the script. -/
def badNumber (command arg : String) : Act Unit :=
  abort (command ++ ": Illegal number: " ++ arg)

/-- Ends a function, or a script that was read into this one. -/
def leave (args : List String) : Act Unit := do
  match args with
  | [] => modify fun s => { s with flow := .returning }
  | a :: _ =>
    match a.toNat? with
    | some n => modify fun s => { s with flow := .returning, status := n }
    | none => badNumber "return" a

/-- Ends the script. -/
def exit (command : String) (args : List String) : Act Unit := do
  let s ← get
  match args with
  | [] => set { s with flow := .ended (.code s.status) }
  | a :: _ =>
    match statusOf? a with
    | some n => set { s with flow := .ended (.code n), status := n }
    | none => badNumber command a

/-- Changes the directory. -/
def cd (args : List String) : Act Unit := do
  let s ← get
  let target := match args with
    | [] => s.values["HOME"]?.getD ""
    | ["-"] => s.values["OLDPWD"]?.getD ""
    | a :: _ => a
  if target.isEmpty then setStatus 0
  else
    match s.disk.locate s.cwd ⟨target⟩ true with
    | .ok (place, .dir ..) =>
      let old := s.values["PWD"]?.getD (Path.ofNames s.cwd).text
      set { s with
        cwd := place
        status := 0
        values := (s.values.insert "OLDPWD" old).insert "PWD" (Path.ofNames place).text }
    | _ =>
      complain ("cd: can't cd to " ++ target)
      setStatus 2

/-- The name and the value in an argument. -/
def splitAssignment (arg : String) : String × Option String :=
  let name := arg.toList.takeWhile (· ≠ '=')
  (String.ofList name,
    if name.length = arg.length then none
    else some (String.ofList (arg.toList.drop (name.length + 1))))

/-- Hands variables on to programs. -/
def export_ (args : List String) : Act Unit := do
  args.forM fun a => do
    let (name, value) := splitAssignment a
    match value with
    | some v => assign name v
    | none => pure ()
    modify fun s => { s with exported := name :: s.exported }
  setStatus 0

/-- Forgets variables. -/
def unset (args : List String) : Act Unit := do
  match args with
  | "-f" :: names =>
    modify fun s => { s with functions := s.functions.filter fun f => !names.contains f.1 }
  | args =>
    (args.filter (· ≠ "-v")).forM fun a =>
      modify fun s => { s with values := s.values.erase a, exported := s.exported.erase a }
  setStatus 0

/-- Makes variables local to the function. -/
def makeLocal (args : List String) : Act Unit := do
  args.forM fun a => do
    let (name, value) := splitAssignment a
    modify fun s => { s with kept := (name, s.values[name]?) :: s.kept }
    match value with
    | some v => assign name v
    | none => pure ()
  setStatus 0

/-- Drops the first arguments. -/
def shift (args : List String) : Act Unit := do
  let s ← get
  match (args.head?.getD "1").toNat? with
  | none => badNumber "shift" (args.headD "")
  | some n =>
    if s.args.length < n then abort "shift: can't shift that many"
    else set { s with args := s.args.drop n, status := 0 }

/-- Changes how the script runs, or its arguments. -/
def setOptions (args : List String) : Act Unit := do
  let isOption (a : String) : Bool :=
    a ≠ "--" && (a.toList.head?.any fun c => c = '-' || c = '+')
  let options := args.takeWhile isOption
  options.forM fun o =>
    modify fun s => { s with
      strict := if o.toList.contains 'e' then o.toList.head? = some '-' else s.strict
      wary := if o.toList.contains 'u' then o.toList.head? = some '-' else s.wary }
  match args.drop options.length with
  | "--" :: rest => modify fun s => { s with args := rest }
  | [] => pure ()
  | rest => modify fun s => { s with args := rest }
  setStatus 0

/-- Takes a line from the input.  The result says whether it had an end. -/
def takeLine : Act (List UInt8 × Bool) := do
  let s ← get
  let line := s.input.takeWhile (· ≠ 10)
  set { s with input := s.input.drop (line.length + 1) }
  return (line, line.length < s.input.length)

/-- Spreads fields over names; the last name gets all that is left. -/
def spread (separators : List Char) : List String → List Char → List (String × String)
  | [], _ => []
  | [name], cs =>
    let isGap (c : Char) : Bool := separators.contains c && " \t\n".toList.contains c
    [(name, String.ofList ((cs.dropWhile isGap).reverse.dropWhile isGap).reverse)]
  | name :: names, cs =>
    let isGap (c : Char) : Bool := separators.contains c
    let cs := cs.dropWhile isGap
    let word := cs.takeWhile (!isGap ·)
    (name, String.ofList word) :: spread separators names (cs.drop word.length)

/-- Reads a line into variables. -/
def read (args : List String) : Act Unit := do
  let raw := args.contains "-r"
  let names := args.filter (· ≠ "-r")
  let (line, complete) ← takeLine
  let text := (Text.decodeLossy ⟨line.toArray⟩).toList
  let text := if raw then text else text.filter (· ≠ '\\')
  (spread (← get).separators names text).forM fun p => assign p.1 p.2
  setStatus (if complete then 0 else 1)

/-- The signals with their names. -/
def signals : List (String × Nat) :=
  [("HUP", 1), ("INT", 2), ("QUIT", 3), ("ILL", 4), ("TRAP", 5), ("ABRT", 6), ("BUS", 7),
   ("FPE", 8), ("KILL", 9), ("USR1", 10), ("SEGV", 11), ("USR2", 12), ("PIPE", 13), ("ALRM", 14),
   ("TERM", 15), ("CHLD", 17), ("CONT", 18), ("URG", 23), ("WINCH", 28)]

/-- The signals that end nothing. -/
def harmless : List Nat :=
  [0, 17, 18, 23, 28]

/-- The signal that a text names. -/
def signal? (name : String) : Option Nat :=
  match name.toNat? with
  | some n => some n
  | none => signals.lookup (if Text.startsWith name "SIG" then String.ofList (name.toList.drop 3)
      else name)

/-- Sends a signal. -/
def kill (args : List String) : Act Unit := do
  let (signal, numbers) := match args with
    | "-s" :: n :: rest => (signal? n, rest)
    | a :: rest =>
      if a.toList.head? = some '-' && a ≠ "--" then
        (signal? (String.ofList (a.toList.drop 1)), rest)
      else (some 15, args)
    | [] => (some 15, [])
  match signal with
  | none =>
    complain "kill: bad signal"
    setStatus 1
  | some n =>
    setStatus 0
    (numbers.filter (· ≠ "--")).forM fun number =>
      if number = ownNumber then
        modify fun s =>
          match s.traps.lookup n with
          | some script => { s with due := s.due ++ [script] }
          | none => if harmless.contains n then s else { s with flow := .ended (.signal n) }
      else do
        complain "kill: No such process"
        setStatus 1

/-- A signal that a script can be set for; 0 is the end of the script. -/
def condition? (name : String) : Option Nat :=
  if name = "EXIT" then some 0 else signal? name

/-- Sets the script for signals, or writes which ones are set. -/
def trap (args : List String) : Act Unit := do
  let set (script : Option String) (names : List String) : Act Unit := do
    setStatus 0
    names.forM fun name =>
      match condition? name with
      | none => do
        write Host.err ("trap: " ++ name ++ ": bad trap\n").toUTF8.toList
        setStatus 1
      | some n =>
        if n = 9 || n = 19 then pure ()
        else modify fun s =>
          let others := s.traps.filter (·.1 ≠ n)
          { s with traps := others ++ (script.map ((n, ·))).toList }
  match args with
  | [] =>
    (← get).traps.forM fun t =>
      let name := ((("EXIT", 0) :: signals).find? (·.2 = t.1)).elim (toString t.1) (·.1)
      write Host.out ("trap -- '" ++ t.2 ++ "' " ++ name ++ "\n").toUTF8.toList
    setStatus 0
  | "--" :: rest => trapArgs set rest
  | args => trapArgs set args
where
  /-- The first argument is the script, a dash for none, or the first signal. -/
  trapArgs (set : Option String → List String → Act Unit) : List String → Act Unit
    | [] => setStatus 0
    | [name] => set none [name]
    | "-" :: names => set none names
    | script :: names => if script.toNat?.isSome then set none (script :: names)
        else set (some script) names

/-- Leaves loops, or goes on with the next round of one.  Outside of loops nothing happens. -/
def jump (how : Nat → Flow) (args : List String) : Act Unit := do
  match (args.head?.getD "1").toNat? with
  | some (n + 1) => modify fun s =>
      let flow := if s.loops = 0 then s.flow else how (min (n + 1) s.loops)
      { s with flow, status := 0 }
  | _ => badNumber "break" (args.headD "")

/-- A utility done by the shell itself. -/
def asUtility (name : String) (u : Host.Utility) (args : List String) : Act Unit := do
  let s ← get
  let place := s.name ++ ": " ++ toString s.line ++ ": " ++ name
  let f := u ⟨s.disk, s.cwd, s.environment, place, args, s.input⟩
  set { s with disk := f.disk, status := f.ending.status }
  f.written.forM fun w => write w.1 w.2

/-- What `echo` does in the shell. -/
def echoUtility : Host.Utility := fun s =>
  s.succeed (echo s.args)

/-- A condition in brackets, as the shell decides it. -/
def bracketUtility : Host.Utility := fun s =>
  if s.args.getLast? = some "]" then Host.test { s with args := s.args.dropLast }
  else s.finish 2 [] (Host.line (s.name ++ ": missing ]"))

/-- The commands that keep the variables they are given. -/
def lastingCommands : List String :=
  [":", "export", "readonly", "set", "shift", "trap", "unset", "exit", "return", "break",
   "continue", "eval", "exec"]

/-- What the shell does itself for a command with the given name. -/
def builtin? (name : String) (args : List String) : Option (Act Unit) :=
  match name with
  | ":" => some (setStatus 0)
  | "true" => some (setStatus 0)
  | "false" => some (setStatus 1)
  | "wait" => some (setStatus 0)
  | "trap" => some (trap args)
  | "local" => some (makeLocal args)
  | "umask" => some (setStatus 0)
  | "exit" => some (exit name args)
  | "return" => some (leave args)
  | "cd" => some (cd args)
  | "export" => some (export_ args)
  | "readonly" => some (export_ args)
  | "unset" => some (unset args)
  | "shift" => some (shift args)
  | "set" => some (setOptions args)
  | "read" => some (read args)
  | "kill" => some (kill args)
  | "break" => some (jump .leaving args)
  | "continue" => some (jump .repeating args)
  | "echo" => some (asUtility name echoUtility args)
  | "printf" => some (asUtility name Host.printf args)
  | "test" => some (asUtility name Host.test args)
  | "[" => some (asUtility name bracketUtility args)
  | "pwd" => some (asUtility name Host.pwd args)
  | _ => none

end SuiteGate.Shell
