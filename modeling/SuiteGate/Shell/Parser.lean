import SuiteGate.Shell.Words
/-!
# Reading scripts

The grammar of scripts.  A script is read line by line (`Shell.readLine`), because what a line does
comes before a fault in a later one.
-/

namespace SuiteGate.Shell

/-- Reading a script. -/
abbrev Parser (α : Type) := StateT (List Char) (Except SyntaxFault) α

/-- Words that have a meaning where a command can start. -/
def reservedWords : List String :=
  ["if", "then", "elif", "else", "fi", "while", "until", "do", "done", "for", "case", "esac",
   "\x7b", "\x7d", "!"]

/-- Words that end a list of commands. -/
def closingWords : List String :=
  ["then", "elif", "else", "fi", "do", "done", "esac", "\x7d"]

namespace Parser

/-- Ends with a fault at this place. -/
def fail {α : Type} (message : String) : Parser α := do
  throw ⟨(← get).length, "Syntax error: " ++ message⟩

/-- Runs a reader of words. -/
def lift {α : Type} (read : List Char → Except SyntaxFault (α × List Char)) : Parser α := do
  match read (← get) with
  | .ok (a, rest) =>
    set rest
    return a
  | .error f => throw f

/-- Goes over blanks, continued lines and comments. -/
def dropBlanks : List Char → List Char
  | ' ' :: rest => dropBlanks rest
  | '\t' :: rest => dropBlanks rest
  | '\\' :: '\n' :: rest => dropBlanks rest
  | cs => if cs.head? = some '#' then cs.dropWhile (· ≠ '\n') else cs

/-- Goes over blanks and ends of lines.  The number bounds the lines. -/
def dropLines : Nat → List Char → List Char
  | 0, cs => cs
  | n + 1, cs =>
    match dropBlanks cs with
    | '\n' :: rest => dropLines n rest
    | cs => cs

/-- Goes over blanks. -/
def blanks : Parser Unit :=
  modify dropBlanks

/-- Goes over blanks and ends of lines. -/
def lines : Parser Unit :=
  modify fun cs => dropLines (cs.length + 1) cs

/-- Whether the given characters come next. -/
def isAt (s : String) : Parser Bool := do
  return s.toList.isPrefixOf (← get)

/-- Goes over the given characters if they come next. -/
def accept (s : String) : Parser Bool := do
  if ← isAt s then
    modify (·.drop s.length)
    return true
  else return false

/-- The reserved word that comes next. -/
def reserved? : Parser (Option String) := do
  blanks
  match readWord (← get) with
  | .ok (w, _) =>
    match literal? w with
    | some cs => return reservedWords.find? (·.toList = cs)
    | none => return none
  | .error _ => return none

/-- Goes over a word if it comes next. -/
def acceptWord (word : String) : Parser Bool := do
  if (← reserved?) = some word then
    modify (·.drop word.length)
    return true
  else return false

/-- The description of what comes next. -/
def nextToken : Parser String := do
  blanks
  let cs ← get
  match cs with
  | [] => return "end of file"
  | '\n' :: _ => return "newline"
  | _ =>
    match [";;", "&&", "||", ";", "&", "|", "(", ")", "<", ">"].find? (·.toList.isPrefixOf cs) with
    | some op => return "\"" ++ op ++ "\""
    | none =>
      match ← reserved? with
      | some word => return "\"" ++ word ++ "\""
      | none => return "word"

/-- What comes next must not. -/
def unexpected {α : Type} (wanted : Option String) : Parser α := do
  let hint := match wanted with
    | some "word" => " (expecting word)"
    | some word => " (expecting \"" ++ word ++ "\")"
    | none => ""
  fail ((← nextToken) ++ " unexpected" ++ hint)

/-- Goes over a word that has to come next. -/
def require (word : String) : Parser Unit := do
  if !(← acceptWord word) then unexpected (some word)

/-! ### Simple commands -/

/-- The redirection sign at the start of a text, with the stream that it is about. -/
def redirectionSign (cs : List Char) : Option (Nat × RedirectionKind × List Char) :=
  let digits := cs.takeWhile Char.isDigit
  let stream (default : Nat) : Nat :=
    if digits.isEmpty then default
    else digits.foldl (fun n d => n * 10 + (d.toNat - '0'.toNat)) 0
  match cs.drop digits.length with
  | '>' :: '>' :: rest => some (stream 1, .append, rest)
  | '>' :: '&' :: rest => some (stream 1, .share, rest)
  | '>' :: '|' :: rest => some (stream 1, .write, rest)
  | '>' :: rest => some (stream 1, .write, rest)
  | '<' :: '&' :: rest => some (stream 0, .share, rest)
  | '<' :: '<' :: rest => some (stream 0, .here, rest)
  | '<' :: rest => some (stream 0, .read, rest)
  | _ => none

/-- The lines up to one that is the given end, and what follows that one.  With `bare` the tabs at
the start of lines are left out.  The number bounds the lines. -/
def takeDocument (bare : Bool) (finish : List Char) : Nat → List Char → List Char × List Char
  | 0, cs => ([], cs)
  | _, [] => ([], [])
  | n + 1, cs =>
    let line := cs.takeWhile (· ≠ '\n')
    let rest := cs.drop (line.length + 1)
    let ended := line.length < cs.length
    let line := if bare then line.dropWhile (· = '\t') else line
    if line = finish then ([], rest)
    else
      let (document, rest) := takeDocument bare finish n rest
      (line ++ (if ended then ['\n'] else []) ++ document, rest)

/-- Whether a piece of a word is quoted text. -/
def isQuotedText : Piece → Bool
  | .text _ quoted => quoted
  | _ => false

/-- The characters in the texts of a word. -/
def charsOf (w : Word) : List Char :=
  w.flatMap fun p => match p with
    | .text cs _ => cs
    | _ => []

/-- Takes the document that starts behind this line out of the script, and reads it as a word.
Nothing in it is replaced if a part of the word that ends it was quoted. -/
def hereDocument : Parser Word := do
  let bare ← accept "-"
  blanks
  let finish ← lift readWord
  let cs ← get
  let line := cs.takeWhile (· ≠ '\n')
  let below := cs.drop (line.length + 1)
  let (document, rest) := takeDocument bare (charsOf finish) (below.length + 1) below
  set (if line.length < cs.length then line ++ '\n' :: rest else cs)
  if finish.any isQuotedText then return [.text document true]
  match readPieces .text true (4 * document.length + 4) document with
  | .ok (w, _) => return w
  | .error f => throw f

/-- Reads a redirection, if there is one. -/
def redirection? : Parser (Option Redirection) := do
  blanks
  match redirectionSign (← get) with
  | none => return none
  | some (stream, .here, rest) =>
    set rest
    return some ⟨stream, .here, ← hereDocument⟩
  | some (stream, kind, rest) =>
    set rest
    blanks
    let word ← lift readWord
    if word.isEmpty then unexpected none else return some ⟨stream, kind, word⟩

/-- Reads redirections.  The number bounds them. -/
def redirections : Nat → Parser (List Redirection)
  | 0 => pure []
  | n + 1 => do
    match ← redirection? with
    | some r => return r :: (← redirections n)
    | none => return []

/-- The name that a word gives a value to, and the value. -/
def assignment? (w : Word) : Option (String × Word) :=
  let bare := w.takeWhile fun p => match p with
    | .text cs false => cs ≠ ['=']
    | _ => false
  match literal? bare, w.drop bare.length with
  | some (c :: name), .text _ false :: value =>
    if startsName c && name.all isNameChar then some (String.ofList (c :: name), value) else none
  | _, _ => none

/-- Reads assignments, words and redirections.  The number bounds them. -/
def simpleParts :
    Nat → List (String × Word) → List Word → List Redirection →
      Parser (List (String × Word) × List Word × List Redirection)
  | 0, as, ws, rs => pure (as, ws, rs)
  | n + 1, as, ws, rs => do
    match ← redirection? with
    | some r => simpleParts n as ws (rs ++ [r])
    | none =>
      let w ← lift readWord
      if w.isEmpty then pure (as, ws, rs)
      else
        match assignment? w with
        | some a =>
          if ws.isEmpty then simpleParts n (as ++ [a]) ws rs else simpleParts n as (ws ++ [w]) rs
        | none => simpleParts n as (ws ++ [w]) rs

/-- Reads words up to the end of the command.  The number bounds them. -/
def words : Nat → Parser (List Word)
  | 0 => pure []
  | n + 1 => do
    blanks
    let w ← lift readWord
    if w.isEmpty then return [] else return w :: (← words n)

/-- Reads the patterns of an arm.  The number bounds them. -/
def patterns : Nat → Parser (List Word)
  | 0 => pure []
  | n + 1 => do
    blanks
    let w ← lift readWord
    if w.isEmpty then unexpected none
    blanks
    if ← accept "|" then return w :: (← patterns n)
    if ← accept ")" then return [w]
    unexpected (some ")")

/-! ### Compound commands -/

/-- Whether a list of commands ends here. -/
def atListEnd : Parser Bool := do
  let cs ← get
  if cs.isEmpty || cs.head? = some ')' || ";;".toList.isPrefixOf cs then return true
  return (← reserved?).any closingWords.contains

mutual

/-- Reads commands up to what ends their list.  The number bounds the commands and their
nesting. -/
def sequence (total : Nat) : Nat → Parser (List Command)
  | 0 => pure []
  | n + 1 => do
    lines
    if ← atListEnd then return []
    let c ← andOr total n
    blanks
    if ← isAt ";;" then return [c]
    let goesOn := (← accept ";") || (← accept "&") || (← accept "\n")
    if goesOn then return c :: (← sequence total n) else return [c]

/-- Reads a list of commands that must not be empty, before a closing word. -/
def body (total : Nat) (closing : String) : Nat → Parser Command
  | 0 => pure (.sequence [])
  | n + 1 => do
    match ← sequence total n with
    | [] => unexpected (if (← get).isEmpty then some closing else none)
    | cs => return .sequence cs

/-- Reads pipelines and the signs between them. -/
def andOr (total : Nat) : Nat → Parser Command
  | 0 => pure (.sequence [])
  | n + 1 => do andOrFrom total n (← pipeline total n)

/-- Reads the signs and pipelines behind a command. -/
def andOrFrom (total : Nat) : Nat → Command → Parser Command
  | 0, c => pure c
  | n + 1, c => do
    blanks
    if ← accept "&&" then
      lines
      andOrFrom total n (.both c (← pipeline total n))
    else if ← accept "||" then
      lines
      andOrFrom total n (.either c (← pipeline total n))
    else return c

/-- Reads a pipeline. -/
def pipeline (total : Nat) : Nat → Parser Command
  | 0 => pure (.sequence [])
  | n + 1 => do
    let negated ← acceptWord "!"
    let c ← pipelineFrom total n [← command total n]
    return if negated then .negation c else c

/-- Reads the rest of a pipeline. -/
def pipelineFrom (total : Nat) : Nat → List Command → Parser Command
  | 0, cs => pure (.pipeline cs)
  | n + 1, cs => do
    blanks
    if (← isAt "|") && !(← isAt "||") then
      modify (·.drop 1)
      lines
      pipelineFrom total n (cs ++ [← command total n])
    else
      match cs with
      | [c] => return c
      | cs => return .pipeline cs

/-- Reads a command. -/
def command (total : Nat) : Nat → Parser Command
  | 0 => pure (.sequence [])
  | n + 1 => do
    blanks
    if ← accept "(" then
      let c ← body total ")" n
      if !(← accept ")") then unexpected (some ")")
      redirect n (.subshell c)
    else
      match ← reserved? with
      | some "\x7b" =>
        require "\x7b"
        let c ← body total "\x7d" n
        require "\x7d"
        redirect n c
      | some "if" =>
        require "if"
        redirect n (← choice total n)
      | some "while" =>
        require "while"
        redirect n (← loop total false n)
      | some "until" =>
        require "until"
        redirect n (← loop total true n)
      | some "for" =>
        require "for"
        redirect n (← each total n)
      | some "case" =>
        require "case"
        redirect n (← select total n)
      | some _ => unexpected none
      | none =>
        let here ← get
        let (as, ws, rs) ← simpleParts here.length [] [] []
        if as.isEmpty && ws.isEmpty && rs.isEmpty then unexpected none
        else if (← isAt "(") && as.isEmpty && rs.isEmpty && ws.length = 1 then
          modify (·.drop 1)
          blanks
          if !(← accept ")") then unexpected (some ")")
          let name := ws.flatMap charsOf
          if !(name.head?.any startsName && name.all isNameChar) then fail "Bad function name"
          lines
          return .define (String.ofList name) (← command total n)
        else return .simple (total - (here.filter (· = '\n')).length) as ws rs

/-- Adds the redirections behind a compound command. -/
def redirect : Nat → Command → Parser Command
  | 0, c => pure c
  | n + 1, c => do
    match ← redirections n with
    | [] => return c
    | rs => return .redirected c rs

/-- Reads a choice behind its first word. -/
def choice (total : Nat) : Nat → Parser Command
  | 0 => pure (.sequence [])
  | n + 1 => do
    let test ← body total "then" n
    require "then"
    let yes ← body total "fi" n
    if ← acceptWord "elif" then return .choice test yes (← choice total n)
    if ← acceptWord "else" then
      let no ← body total "fi" n
      require "fi"
      return .choice test yes no
    require "fi"
    return .choice test yes (.sequence [])

/-- Reads a loop behind its first word. -/
def loop (total : Nat) (until_ : Bool) : Nat → Parser Command
  | 0 => pure (.sequence [])
  | n + 1 => do
    let test ← body total "do" n
    require "do"
    let c ← body total "done" n
    require "done"
    return .loop until_ test c

/-- Reads a loop over words behind its first word. -/
def each (total : Nat) : Nat → Parser Command
  | 0 => pure (.sequence [])
  | n + 1 => do
    blanks
    let name := (← get).takeWhile isNameChar
    if !(name.head?.any startsName) then fail "Bad for loop variable"
    modify (·.drop name.length)
    lines
    let range ←
      if (← isAt "in") && ((← get)[2]?).all endsWord then
        modify (·.drop 2)
        let ws ← words (← get).length
        pure (some ws)
      else pure none
    blanks
    if range.isSome && !(← isAt "\n") && (!(← isAt ";") || (← isAt ";;")) then unexpected none
    let _ ← accept ";"
    lines
    require "do"
    let c ← body total "done" n
    require "done"
    return .each (String.ofList name) range c

/-- Reads a selection behind its first word. -/
def select (total : Nat) : Nat → Parser Command
  | 0 => pure (.sequence [])
  | n + 1 => do
    blanks
    let w ← lift readWord
    if w.isEmpty then unexpected (some "word")
    lines
    if !(← accept "in") then unexpected (some "in")
    let arms ← arms total n
    require "esac"
    return .select w arms

/-- Reads the arms of a selection. -/
def arms (total : Nat) : Nat → Parser (List (List Word × Command))
  | 0 => pure []
  | n + 1 => do
    lines
    if (← get).isEmpty then unexpected (some ")")
    if (← reserved?) = some "esac" then return []
    let _ ← accept "("
    let ps ← patterns (← get).length
    let c ← sequence total n
    let arm : List Word × Command := (ps, .sequence c)
    lines
    if ← accept ";;" then return arm :: (← arms total n)
    if (← reserved?) ≠ some "esac" then unexpected (some ";;")
    return [arm]

end

/-- Reads commands up to the end of the line.  The number bounds them. -/
def restOfLine (total : Nat) : Nat → Parser (List Command)
  | 0 => pure []
  | n + 1 => do
    let c ← andOr total (4 * (← get).length + 8)
    blanks
    if (← accept "\n") || (← get).isEmpty then return [c]
    if ← isAt ";;" then unexpected none
    if !((← accept ";") || (← accept "&")) then unexpected none
    blanks
    if (← accept "\n") || (← get).isEmpty then return [c]
    return c :: (← restOfLine total n)

/-- Reads the commands of a line, or nothing at the end of the script.  The number counts the lines
of the script. -/
def line? (total : Nat) : Parser (Option Command) := do
  lines
  let cs ← get
  if cs.isEmpty then return none
  return some (.sequence (← restOfLine total (cs.length + 1)))

end Parser

/-- The number of lines of a script. -/
def lineCount (script : List Char) : Nat :=
  1 + (script.filter (· = '\n')).length

/-- Reads the next commands of a script with so many lines, and gives what is left. -/
def readLine (total : Nat) (script : List Char) :
    Except SyntaxFault (Option Command × List Char) :=
  (Parser.line? total).run script

end SuiteGate.Shell
