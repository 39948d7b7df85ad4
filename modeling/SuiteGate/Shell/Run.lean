import SuiteGate.Shell.Arithmetic
import SuiteGate.Shell.Builtins
import SuiteGate.Shell.Parser
/-!
# Running scripts

What scripts do: words are expanded, streams redirected, commands run one after the other
(`Shell.run`), and a script is read and run line by line (`Shell.start`).  The programs of the host
are started through a parameter.
-/

namespace SuiteGate.Shell

/-! ### Parts of scripts that cannot change variables -/

/-- Runs a step of which only the disk, the output and the status remain. -/
def isolated (act : Act Unit) : Act Unit := do
  let before ← get
  set { before with traps := before.traps.filter (·.2.isEmpty) }
  act
  let after ← get
  let status := match after.flow with
    | .ended e => e.status
    | _ => after.status
  set { before with
    disk := after.disk, input := after.input, written := after.written, status := status }

/-- Runs a step and takes what it writes to the stream of results. -/
def collecting (act : Act Unit) : Act (List UInt8) := do
  let written ← gathering act
  written.forM fun w => if w.1 = Host.out then pure () else write w.1 w.2
  return (written.filter (·.1 = Host.out)).flatMap (·.2)

/-! ### Redirections -/

/-- Makes a file empty, or only makes sure that it is there. -/
def openFile (append : Bool) (p : Path) : Act Bool := do
  let s ← get
  let old := if append then (s.disk.readFile s.cwd p).toOption.getD ByteArray.empty
    else ByteArray.empty
  match s.disk.writeFile s.cwd p old with
  | .ok d =>
    set { s with disk := d }
    return true
  | .error e =>
    complain ("cannot create " ++ p.text ++ ": " ++
      if Host.isMissing e then "Directory nonexistent" else Host.reason e)
    setStatus 2
    return false

/-- Opens what a redirection names.  The result has the new targets, if that was possible. -/
def redirect (ts : Targets) (r : Redirection) (target : String) : Act (Option Targets) := do
  let s ← get
  let path : Path := (Path.ofNames s.cwd).join ⟨target⟩
  let input (bs : List UInt8) : Act (Option Targets) := do
    modify fun s => { s with input := bs }
    return some ts
  match r.kind with
  | .here => input target.toUTF8.toList
  | .share =>
    if r.stream = 0 then return some ts
    match target.toNat? with
    | some n => return some ((r.stream, targetOf ts n) :: ts)
    | none => return some ((r.stream, .nowhere) :: ts)
  | .read =>
    if target = "/dev/null" then input []
    else
      match s.disk.readFile s.cwd ⟨target⟩ with
      | .ok bs => input bs.toList
      | .error e =>
        complain ("cannot open " ++ target ++ ": " ++
          if Host.isMissing e then "No such file" else Host.reason e)
        setStatus 2
        return none
  | kind =>
    match target with
    | "/dev/null" => return some ((r.stream, .nowhere) :: ts)
    | "/dev/stdout" => return some ((r.stream, targetOf ts Host.out) :: ts)
    | "/dev/stderr" => return some ((r.stream, targetOf ts Host.err) :: ts)
    | _ =>
      if ← openFile (kind = .append) ⟨target⟩ then return some ((r.stream, .file path) :: ts)
      else return none

/-- Sends what was written to a stream on to its target. -/
def sendOn (ts : Targets) (w : Nat × List UInt8) : Act Unit := do
  match targetOf ts w.1 with
  | .stream n => write n w.2
  | _ => deliver ts w

/-! ### Commands and words -/

/-- The environment of a program with some variables given for it alone. -/
def environmentWith (s : Session) (given : List (String × String)) : Environment :=
  given.foldl (fun e p => e.insert p.1 p.2) s.environment

/-- A path below which nothing stands. -/
def noDirectory : String := "/dev/null"

/-- Where programs are looked for if the environment of the shell does not say. -/
def ownSearch : String := "/usr/local/sbin:/usr/local/bin:/usr/sbin:/usr/bin:/sbin:/bin"

/-- Starts a program of the host; `label` goes before a complaint about it. -/
def startProgram (launch : Host.Launch) (given : List (String × String)) (label name : String)
    (args : List String) : Act Unit := do
  let s ← get
  let environment := environmentWith s given
  let search := (given.lookup "PATH").getD (s.values["PATH"]?.getD noDirectory)
  match Host.find launch search ⟨s.disk, s.cwd, environment, name, args, s.input⟩ with
  | .ok f =>
    set { s with disk := f.disk, input := f.input, status := f.ending.status }
    f.written.forM fun w => write w.1 w.2
  | .error e =>
    if Host.isMissing e then
      complain (label ++ name ++ ": not found")
      setStatus 127
    else
      complain (label ++ name ++ ": " ++ Host.reason e)
      setStatus 126

/-- Runs a command with variables given for it, and forgets them afterwards. -/
def withVariables (given : List (String × String)) (act : Act Unit) : Act Unit := do
  let before := (← get).values
  given.forM fun p => assign p.1 p.2
  act
  modify fun s => { s with
    values := given.foldl (fun vs p =>
      match before[p.1]? with
      | some v => vs.insert p.1 v
      | none => vs.erase p.1) s.values }

/-- Ends a strict script if a command failed that did not only decide how to go on. -/
def checkFailure : Act Unit :=
  modify fun s =>
    if s.strict && !s.deciding && s.status ≠ 0 && s.flow = .onward then
      { s with flow := .ended (.code s.status) }
    else s

/-- Runs a step that only decides how to go on. -/
def deciding (act : Act Unit) : Act Unit := do
  let before := (← get).deciding
  modify fun s => { s with deciding := true }
  act
  modify fun s => { s with deciding := before }

/-- Behind a round of a loop: whether there may be another one. -/
def afterRound : Act Bool := do
  let s ← get
  match s.flow with
  | .onward => return true
  | .leaving n =>
    set { s with flow := if n ≤ 1 then .onward else .leaving (n - 1) }
    return false
  | .repeating n =>
    set { s with flow := if n ≤ 1 then .onward else .repeating (n - 1) }
    return n ≤ 1
  | _ => return false

/-- Runs the rounds of a loop, in which the script is one loop deeper. -/
def inLoop (act : Act Unit) : Act Unit := do
  modify fun s => { s with loops := s.loops + 1 }
  act
  modify fun s => { s with loops := s.loops - 1 }

/-- Gives local variables the values back that they had before the function. -/
def giveBack (kept : List (String × Option String)) (vs : NameMap String) : NameMap String :=
  kept.foldl (fun vs p =>
    match p.2 with
    | some v => vs.insert p.1 v
    | none => vs.erase p.1) vs

/-- The end of a function, or of a script that was read into this one. -/
def returned : Act Unit :=
  modify fun s => { s with flow := if s.flow = .returning then .onward else s.flow }

/-- The file that a name of a script stands for. -/
def scriptFile? (s : Session) (name : String) : Option ByteArray :=
  let search := if name.toList.contains '/' then "" else s.values["PATH"]?.getD ""
  (Host.candidates search name).findSome? fun p => (s.disk.readFile s.cwd p).toOption

/-- Where the program with a name is. -/
def programPath? (s : Session) (name : String) : Option Path :=
  (Host.candidates (s.environment["PATH"]?.getD "") name).find? fun p =>
    match s.disk.readData s.cwd p with
    | .ok f => f.executable
    | .error _ => false

/-- Says what a name of a command stands for, if anything. -/
def locateCommand (name : String) : Act Unit := do
  let s ← get
  let known := (s.functions.lookup name).isSome || (builtin? name []).isSome ||
    reservedWords.contains name || ["eval", "command", "exec", "."].contains name
  match if known then some name else (programPath? s name).map Path.text with
  | some answer =>
    write Host.out (answer ++ "\n").toUTF8.toList
    setStatus 0
  | none => setStatus 127

/-- The value of a parameter that is not `@` or `*`, if a wary script misses it. -/
def checkWary (name : String) : Act Unit := do
  let s ← get
  if s.wary && (s.value? name).isNone && name ≠ "@" && name ≠ "*" then
    abort (name ++ ": parameter not set")

/-- The glyphs of a parameter. -/
def parameterGlyphs (s : Session) (name : String) (quoted : Bool) : List Glyph :=
  let origin : Origin := if quoted then .quoted else .value
  if name = "@" || (name = "*" && !quoted) then
    [Glyph.border].intercalate (s.args.map (glyphsOf origin))
  else if name = "*" then
    let separator := match s.values["IFS"]? with
      | some ifs => String.ofList (ifs.toList.take 1)
      | none => " "
    glyphsOf origin (Text.join separator s.args)
  else glyphsOf origin ((s.value? name).getD "")

/-- Glyphs from the script inside a parameter count as its value. -/
def asValue (quoted : Bool) (gs : List Glyph) : List Glyph :=
  if quoted then .presence :: gs
  else gs.map fun g => match g with
    | .char c .script => .char c .value
    | g => g

/-- The number of a variable in a term. -/
def variableNumber (s : Session) (name : String) : Int :=
  ((s.value? name).bind numberOf?).getD 0

/-- What a script that was put into a word has written, as text. -/
def outputText (bs : List UInt8) : String :=
  let text := (Text.decodeLossy ⟨bs.toArray⟩).toList.filter (· ≠ '\x00')
  String.ofList (text.reverse.dropWhile (· = '\n')).reverse

mutual

/-- The glyphs of a word.  The numbers in this group of definitions bound the steps. -/
def expand (launch : Host.Launch) : Nat → Word → Act (List Glyph)
  | 0, _ => pure []
  | _, [] => pure []
  | n + 1, p :: ps => do
    let gs ← expandPiece launch n p
    return gs ++ (← expand launch n ps)

/-- The glyphs of a piece of a word. -/
def expandPiece (launch : Host.Launch) : Nat → Piece → Act (List Glyph)
  | 0, _ => pure []
  | n + 1, p => do
    match p with
    | .text cs quoted => return glyphsOf (if quoted then .quoted else .script) (String.ofList cs)
    | .parameter name quoted =>
      checkWary name
      return parameterGlyphs (← get) name quoted
    | .length name quoted =>
      let v := ((← get).value? name).getD ""
      return glyphsOf (if quoted then .quoted else .value) (toString v.length)
    | .arithmetic term quoted =>
      let s ← get
      let text := (fieldOf (← expand launch n term)).map (·.1)
      match evaluate (variableNumber s) text with
      | .ok (v, numbers) =>
        numbers.forM fun p => assign p.1 (toString p.2)
        return glyphsOf (if quoted then .quoted else .value) (toString v)
      | .error fault =>
        let what := match fault with
          | .divisionByZero => "division by zero"
          | .malformed => "expecting primary"
          | .unfinished => "expecting EOF"
        abort ("arithmetic expression: " ++ what ++ ": \"" ++ String.ofList text ++ "\"")
        return []
    | .output script quoted =>
      let bs ← collecting (isolated do
        runScript launch n (lineCount script) script
        atEnd launch n)
      modify fun s => { s with inner := some s.status }
      return glyphsOf (if quoted then .quoted else .value) (outputText bs)
    | .adjusted name kind emptyToo word quoted =>
      let s ← get
      let value := s.value? name
      let missing := value.isNone || (emptyToo && value = some "")
      let longest := kind = .dropLongStart || kind = .dropLongEnd
      match kind with
      | .orElse =>
        if missing then return asValue quoted (← expand launch n word)
        else return parameterGlyphs s name quoted
      | .andThen =>
        if missing then return asValue quoted []
        else return asValue quoted (← expand launch n word)
      | .orAssign =>
        if missing then assign name (textOf (fieldOf (← expand launch n word)))
        return parameterGlyphs (← get) name quoted
      | .orFail =>
        if missing then
          let message := textOf (fieldOf (← expand launch n word))
          abort (name ++ ": " ++
            if message.isEmpty then (if emptyToo then "parameter not set or null"
              else "parameter not set") else message)
        return parameterGlyphs (← get) name quoted
      | _ =>
        let pattern := Pattern.ofChars (fieldOf (← expand launch n word))
        let cs := (value.getD "").toList
        let rest :=
          if kind = .dropShortStart || kind = .dropLongStart then dropStart pattern longest cs
          else dropEnd pattern longest cs
        return glyphsOf (if quoted then .quoted else .value) (String.ofList rest)

/-- The texts that words stand for. -/
def expandAll (launch : Host.Launch) : Nat → List Word → Act (List String)
  | 0, _ => pure []
  | _, [] => pure []
  | n + 1, w :: ws => do
    let gs ← expand launch n w
    let texts := textsOf (← get) gs
    return texts ++ (← expandAll launch n ws)

/-- The values of assignments. -/
def expandValues (launch : Host.Launch) :
    Nat → List (String × Word) → Act (List (String × String))
  | 0, _ => pure []
  | _, [] => pure []
  | n + 1, (name, w) :: rest => do
    let value := textOf (fieldOf (← expand launch n w))
    return (name, value) :: (← expandValues launch n rest)

/-- Opens what redirections name. -/
def openAll (launch : Host.Launch) : Nat → List Redirection → Targets → Act (Option Targets)
  | 0, _, ts => pure (some ts)
  | _, [], ts => pure (some ts)
  | n + 1, r :: rs, ts => do
    let target := textOf (fieldOf (← expand launch n r.target))
    match ← redirect ts r target with
    | some ts => openAll launch n rs ts
    | none => return none

/-- Runs a step with redirected streams. -/
def redirected (launch : Host.Launch) : Nat → List Redirection → Act Unit → Act Unit
  | 0, _, act => act
  | n + 1, rs, act => do
    if rs.isEmpty then act
    else
      let input := (← get).input
      match ← openAll launch n rs [] with
      | none => modify fun s => { s with input }
      | some ts =>
        let written ← gathering act
        let feeds (r : Redirection) : Bool := r.kind = .read || r.kind = .here
        modify fun s => { s with input := if rs.any feeds then input else s.input }
        written.forM (sendOn ts)

/-- Runs a command with its name and arguments. -/
def perform (launch : Host.Launch) :
    Nat → List (String × String) → String → List String → Act Unit
  | 0, _, _, _ => pure ()
  | n + 1, given, name, args => do
    match name, args with
    | ".", file :: _ =>
      match scriptFile? (← get) file with
      | some bytes =>
        let script := (Text.decodeLossy bytes).toList
        runScript launch n (lineCount script) script
        returned
      | none =>
        abort (if file.toList.contains '/' then ".: cannot open " ++ file ++ ": No such file"
          else ".: " ++ file ++ ": not found")
    | "eval", args =>
      let script := (Text.join " " args).toList
      given.forM fun p => assign p.1 p.2
      runScript launch n (lineCount script) script
    | "command", "-v" :: names => locateCommand (names.headD "")
    | "command", name :: args =>
      let before := (← get).functions
      modify fun s => { s with functions := s.functions.filter (·.1 ≠ name) }
      perform launch n given name args
      modify fun s => { s with functions := before }
    | "exec", name :: args =>
      startProgram launch given "exec: " name args
      modify fun s => { s with flow := .ended (.code s.status) }
    | name, args =>
      match (← get).functions.lookup name, builtin? name args with
      | some body, _ => withVariables given (callFunction launch n body args)
      | none, some act =>
        if lastingCommands.contains name then
          given.forM fun p => assign p.1 p.2
          act
        else withVariables given act
      | none, none => startProgram launch given "" name args

/-- Runs the body of a function with arguments of its own. -/
def callFunction (launch : Host.Launch) : Nat → Command → List String → Act Unit
  | 0, _, _ => modify fun s => { s with flow := .ended (.code 2) }
  | n + 1, body, args => do
    let before ← get
    set { before with args, kept := [], loops := 0 }
    run launch n body
    returned
    modify fun s => { s with
      args := before.args
      kept := before.kept
      loops := before.loops
      values := giveBack s.kept s.values }

/-- Runs the scripts for signals that have come. -/
def answerSignals (launch : Host.Launch) : Nat → Act Unit
  | 0 => pure ()
  | n + 1 => do
    let s ← get
    match s.due with
    | [] => pure ()
    | script :: due =>
      set { s with due }
      runScript launch n (lineCount script.toList) script.toList
      if ← goesOn then
        setStatus s.status
        answerSignals launch n

/-- Runs the script for the end, unless a signal has ended this one. -/
def atEnd (launch : Host.Launch) : Nat → Act Unit
  | 0 => pure ()
  | n + 1 => do
    let s ← get
    match s.traps.lookup 0, s.flow with
    | none, _ => pure ()
    | _, .ended (.signal _) => pure ()
    | some script, flow =>
      set { s with flow := .onward, traps := s.traps.filter (·.1 ≠ 0) }
      runScript launch n (lineCount script.toList) script.toList
      if ← goesOn then modify fun t => { t with flow, status := s.status }

/-- Runs a command. -/
def run (launch : Host.Launch) : Nat → Command → Act Unit
  | 0, _ => modify fun s => { s with flow := .ended (.code 2) }
  | n + 1, c => do
    match c with
    | .simple line assignments words redirections =>
      modify fun s => { s with line, inner := none }
      let texts ← expandAll launch n words
      if ← goesOn then
        let given ← expandValues launch n assignments
        if ← goesOn then
          match texts with
          | [] =>
            redirected launch n redirections do
              given.forM fun p => assign p.1 p.2
              modify fun s => { s with status := s.inner.getD 0 }
          | ["exec"] =>
            match ← openAll launch n redirections [] with
            | some ts => modify fun s => { s with standing := ts ++ s.standing, status := 0 }
            | none => modify fun s => { s with flow := .ended (.code s.status) }
          | name :: args => redirected launch n redirections (perform launch n given name args)
          if ← goesOn then answerSignals launch n
          checkFailure
    | .pipeline cs =>
      runPipeline launch n cs
      checkFailure
    | .negation c =>
      deciding (run launch n c)
      if ← goesOn then modify fun s => { s with status := if s.status = 0 then 1 else 0 }
    | .both a b =>
      deciding (run launch n a)
      if (← goesOn) && (← get).status = 0 then run launch n b
    | .either a b =>
      deciding (run launch n a)
      if (← goesOn) && (← get).status ≠ 0 then run launch n b
    | .sequence cs => runAll launch n cs
    | .choice test yes no =>
      deciding (run launch n test)
      if ← goesOn then
        if (← get).status = 0 then run launch n yes
        else if no.isNothing then setStatus 0
        else run launch n no
    | .loop until_ test body =>
      inLoop (runLoop launch n until_ test body 0)
    | .each name words body =>
      let texts ← match words with
        | some ws => expandAll launch n ws
        | none => pure (← get).args
      setStatus 0
      inLoop (runEach launch n name body texts)
    | .select word arms =>
      let text := (fieldOf (← expand launch n word)).map (·.1)
      setStatus 0
      runArms launch n text arms
    | .subshell c =>
      isolated do
        run launch n c
        atEnd launch n
      checkFailure
    | .redirected c rs => redirected launch n rs (run launch n c)
    | .define name body =>
      modify fun s => { s with functions := (name, body) :: s.functions, status := 0 }

/-- Runs commands one after the other. -/
def runAll (launch : Host.Launch) : Nat → List Command → Act Unit
  | 0, _ => modify fun s => { s with flow := .ended (.code 2) }
  | _, [] => pure ()
  | n + 1, c :: cs => do
    run launch n c
    if ← goesOn then runAll launch n cs

/-- Runs commands, each with the output of the one before it as its input. -/
def runPipeline (launch : Host.Launch) : Nat → List Command → Act Unit
  | 0, _ => modify fun s => { s with flow := .ended (.code 2) }
  | _, [] => pure ()
  | n + 1, [c] => isolated (run launch n c)
  | n + 1, c :: cs => do
    let before := (← get).input
    let bs ← collecting (isolated (run launch n c))
    modify fun s => { s with input := bs }
    runPipeline launch n cs
    modify fun s => { s with input := before }

/-- Runs the rounds of a loop; `last` is the status of the last one. -/
def runLoop (launch : Host.Launch) : Nat → Bool → Command → Command → Nat → Act Unit
  | 0, _, _, _, _ => modify fun s => { s with flow := .ended (.code 2) }
  | n + 1, until_, test, body, last => do
    deciding (run launch n test)
    if ← afterRound then
      if ((← get).status = 0) != until_ then
        run launch n body
        let status := (← get).status
        if ← afterRound then runLoop launch n until_ test body status
      else setStatus last

/-- Runs a command for each text. -/
def runEach (launch : Host.Launch) : Nat → String → Command → List String → Act Unit
  | 0, _, _, _ => modify fun s => { s with flow := .ended (.code 2) }
  | _, _, _, [] => pure ()
  | n + 1, name, body, t :: ts => do
    assign name t
    run launch n body
    if ← afterRound then runEach launch n name body ts

/-- Runs the command of the first arm that matches. -/
def runArms (launch : Host.Launch) :
    Nat → List Char → List (List Word × Command) → Act Unit
  | 0, _, _ => pure ()
  | _, _, [] => pure ()
  | n + 1, text, (patterns, c) :: arms => do
    if ← matchesAny launch n text patterns then run launch n c
    else runArms launch n text arms

/-- Whether a text matches one of some patterns. -/
def matchesAny (launch : Host.Launch) : Nat → List Char → List Word → Act Bool
  | 0, _, _ => pure false
  | _, _, [] => pure false
  | n + 1, text, w :: ws => do
    let pattern := Pattern.ofChars (fieldOf (← expand launch n w))
    if pattern.matches? text then return true else matchesAny launch n text ws

/-- Reads and runs a script line by line.  The number `total` counts its lines. -/
def runScript (launch : Host.Launch) : Nat → Nat → List Char → Act Unit
  | 0, _, _ => modify fun s => { s with flow := .ended (.code 2) }
  | n + 1, total, script => do
    match readLine total script with
    | .error f =>
      modify fun s =>
        { s with line := total - ((script.drop (script.length - f.left)).filter (· = '\n')).length }
      abort f.message
    | .ok (none, _) => pure ()
    | .ok (some c, rest) =>
      run launch n c
      if ← goesOn then runScript launch n total rest

end

/-! ### Starting the shell -/

/-- The bound on the steps of a script. -/
def maxSteps : Nat := 1000000

/-- The directory that the shell is in, as it names it: by the variable for that if it is right. -/
def directoryName (d : Disk) (cwd : List Name) (given : Option String) : String :=
  match given with
  | some p =>
    let path : Path := ⟨p⟩
    if path.isAbsolute && (d.locate cwd path true).toOption.any (·.1 = cwd) then p
    else (Path.ofNames cwd).text
  | none => (Path.ofNames cwd).text

/-- A session at its start. -/
def Session.ofStart (s : Host.Start) (name : String) (args : List String) : Session :=
  let isName (k : String) : Bool :=
    (k.toList.head?.any startsName) && k.toList.all isNameChar && k ≠ "IFS"
  let imported := s.environment.filter fun k _ => isName k
  { disk := s.disk, cwd := s.cwd, input := s.input
    values := (imported.insertIfNew "PATH" ownSearch).insert "PWD"
      (directoryName s.disk s.cwd s.environment["PWD"]?)
    exported := "PWD" :: imported.keys
    name, args }

/-- Runs a script to its end. -/
def finishScript (launch : Host.Launch) (s : Host.Start) (name : String) (args : List String)
    (strict : Bool) (script : List Char) : Host.Finish :=
  let start := { Session.ofStart s name args with strict }
  let act : Act Unit := do
    runScript launch maxSteps (lineCount script) script
    atEnd launch maxSteps
  let ((), e) := act.run start
  let ending := match e.flow with
    | .ended ending => ending
    | _ => .code e.status
  ⟨e.disk, ending, e.input, e.written⟩

/-- Runs the shell: with the script in an argument, in a file, or in the input. -/
def start (launch : Host.Launch) : Host.Utility := fun s =>
  let isOption (a : String) : Bool :=
    (a.toList.head?.any fun c => c = '-' || c = '+') && a ≠ "--" && a ≠ "-"
  let options := s.args.takeWhile isOption
  let operands := match s.args.drop options.length with
    | "--" :: rest => rest
    | "-" :: rest => rest
    | rest => rest
  let strict := Host.hasOption options 'e'
  if Host.hasOption options 'c' then
    match operands with
    | [] =>
      s.finish 2 [] (Host.line (s.name ++ ": 0: -c requires an argument"))
    | script :: rest =>
      finishScript launch s (rest.headD s.name) (rest.drop 1) strict script.toList
  else
    match operands with
    | [] =>
      finishScript launch { s with input := [] } s.name [] strict
        (Text.decodeLossy ⟨s.input.toArray⟩).toList
    | file :: rest =>
      match s.disk.readFile s.cwd ⟨file⟩ with
      | .ok bs => finishScript launch s file rest strict (Text.decodeLossy bs).toList
      | .error e =>
        s.finish 2 [] (Host.line (s.name ++ ": 0: cannot open " ++ file ++ ": " ++
          if Host.isMissing e then "No such file" else Host.reason e))

end SuiteGate.Shell
