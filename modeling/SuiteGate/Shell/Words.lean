import SuiteGate.Shell.Syntax
/-!
# Reading words

Taking the words of a script apart (`Shell.readPieces`): quotes, escapes, and what starts with a
dollar sign.
-/

namespace SuiteGate.Shell

/-- Why a script cannot be read, and how much of it was left. -/
structure SyntaxFault where
  left : Nat
  message : String
deriving Inhabited

/-- Characters that end a bare word. -/
def endsWord (c : Char) : Bool :=
  " \t\n;&|<>()".toList.contains c

/-- Characters that a name can start with. -/
def startsName (c : Char) : Bool :=
  c.isAlpha || c = '_'

/-- Characters of names. -/
def isNameChar (c : Char) : Bool :=
  c.isAlphanum || c = '_'

/-- Parameters with a name of one sign. -/
def isSpecialName (c : Char) : Bool :=
  "@*#?-$!".toList.contains c || c.isDigit

/-- The name at the start of a text; a number stands for an argument. -/
def nameAtStart (cs : List Char) : List Char :=
  match cs with
  | [] => []
  | c :: _ =>
    if startsName c then cs.takeWhile isNameChar
    else if c.isDigit then cs.takeWhile Char.isDigit
    else if isSpecialName c then [c]
    else []

/-- The text up to a closing parenthesis at the given depth, and what follows it.  Quoted text is
passed over.  The number bounds the characters. -/
def takeNested : Nat → Nat → List Char → List Char → Option (List Char × List Char)
  | 0, _, _, _ => none
  | _, _, _, [] => none
  | n + 1, depth, acc, c :: rest =>
    if c = '\\' then
      match rest with
      | [] => none
      | d :: rest => takeNested n depth (acc ++ [c, d]) rest
    else if c = '\'' || c = '"' then
      let inside := rest.takeWhile (· ≠ c)
      takeNested n depth (acc ++ c :: inside ++ [c]) (rest.drop (inside.length + 1))
    else if c = '(' then takeNested n (depth + 1) (acc ++ [c]) rest
    else if c = ')' then
      if depth = 0 then some (acc, rest) else takeNested n (depth - 1) (acc ++ [c]) rest
    else takeNested n depth (acc ++ [c]) rest

/-- The text up to a back quote, and what follows it.  The number bounds the characters. -/
def takeBackQuoted : Nat → List Char → List Char → Option (List Char × List Char)
  | 0, _, _ => none
  | _, _, [] => none
  | n + 1, acc, c :: rest =>
    if c = '\x60' then some (acc, rest)
    else
      match c, rest with
      | '\\', d :: rest' =>
        if d = '\x60' || d = '\\' || d = '$' then takeBackQuoted n (acc ++ [d]) rest'
        else takeBackQuoted n (acc ++ [c]) rest
      | _, _ => takeBackQuoted n (acc ++ [c]) rest

/-- The adjustment that stands behind the name of a parameter. -/
def readAdjustment (cs : List Char) : Option (Adjustment × Bool × List Char) :=
  let default (emptyToo : Bool) (cs : List Char) : Option (Adjustment × Bool × List Char) :=
    match cs with
    | '-' :: rest => some (.orElse, emptyToo, rest)
    | '=' :: rest => some (.orAssign, emptyToo, rest)
    | '+' :: rest => some (.andThen, emptyToo, rest)
    | '?' :: rest => some (.orFail, emptyToo, rest)
    | _ => none
  match cs with
  | '%' :: '%' :: rest => some (.dropLongEnd, false, rest)
  | '%' :: rest => some (.dropShortEnd, false, rest)
  | '#' :: '#' :: rest => some (.dropLongStart, false, rest)
  | '#' :: rest => some (.dropShortStart, false, rest)
  | ':' :: rest => default true rest
  | cs => default false cs

/-- What ends the pieces that are read. -/
inductive Ending where
  /-- A character that ends a bare word, or the end of the script. -/
  | word
  /-- A closing quote. -/
  | quote
  /-- A closing brace. -/
  | brace
  /-- The end of the text. -/
  | text
deriving DecidableEq

/-- Whether pieces end before a character. -/
def Ending.isAt (e : Ending) (c : Char) : Bool :=
  match e with
  | word => endsWord c
  | quote => c = '"'
  | brace => c = '\x7d'
  | text => false

/-- Whether a backslash keeps a character from its meaning inside quotes. -/
def isEscapable (e : Ending) (c : Char) : Bool :=
  c = '$' || c = '\x60' || c = '"' || c = '\\' || (e = .brace && c = '\x7d')

/-- A quote without an end. -/
def unterminated (cs : List Char) : SyntaxFault :=
  ⟨cs.length, "Syntax error: Unterminated quoted string"⟩

/-- A parameter in braces without an end. -/
def unclosedBrace (quoted : Bool) : SyntaxFault :=
  if quoted then unterminated [] else ⟨0, "Syntax error: Missing '\x7d'"⟩

/-- A parameter in braces that makes no sense. -/
def badSubstitution (cs : List Char) : SyntaxFault :=
  ⟨cs.length, "Bad substitution"⟩

mutual

/-- Reads pieces up to their end.  The number bounds the characters. -/
def readPieces (ending : Ending) (quoted : Bool) :
    Nat → List Char → Except SyntaxFault (Word × List Char)
  | 0, cs => .ok ([], cs)
  | n + 1, cs =>
    match cs with
    | [] =>
      if ending = .word || ending = .text then .ok ([], [])
      else .error (if ending = .brace then unclosedBrace quoted else unterminated cs)
    | c :: rest =>
      if ending.isAt c then .ok ([], cs)
      else do
        let (piece, rest) ← readPiece ending quoted n c rest
        let (pieces, rest) ← readPieces ending quoted n rest
        .ok (piece ++ pieces, rest)

/-- Reads what a character starts. -/
def readPiece (ending : Ending) (quoted : Bool) :
    Nat → Char → List Char → Except SyntaxFault (Word × List Char)
  | 0, _, rest => .ok ([], rest)
  | n + 1, c, rest =>
    if c = '\\' then
      match rest with
      | [] => .ok ([.text [c] quoted], [])
      | '\n' :: rest => .ok ([], rest)
      | d :: rest =>
        if quoted && !isEscapable ending d then .ok ([.text [c, d] true], rest)
        else .ok ([.text [d] true], rest)
    else if c = '\'' && !quoted then
      let inside := rest.takeWhile (· ≠ '\'')
      match rest.drop inside.length with
      | [] => .error (unterminated [])
      | _ :: rest => .ok ([.text inside true], rest)
    else if c = '"' && ending ≠ .text then
      if quoted then .ok ([], rest)
      else do
        let (pieces, rest) ← readPieces .quote true n rest
        .ok (if pieces.isEmpty then [.text [] true] else pieces, rest.drop 1)
    else if c = '$' then do
      let (piece, rest) ← readDollar quoted n rest
      .ok ([piece], rest)
    else if c = '\x60' then
      match takeBackQuoted (rest.length + 1) [] rest with
      | some (script, rest) => .ok ([.output script quoted], rest)
      | none => .error ⟨0, "Syntax error: EOF in backquote substitution"⟩
    else .ok ([.text [c] quoted], rest)

/-- Reads what stands behind a dollar sign. -/
def readDollar (quoted : Bool) : Nat → List Char → Except SyntaxFault (Piece × List Char)
  | 0, rest => .ok (.text ['$'] quoted, rest)
  | n + 1, rest =>
    match rest with
    | '(' :: '(' :: inside =>
      match takeNested (inside.length + 1) 0 [] inside with
      | some (term, ')' :: rest) => do
        let (pieces, _) ← readPieces .text true n term
        .ok (.arithmetic pieces quoted, rest)
      | _ => .error ⟨0, "Syntax error: Missing '))'"⟩
    | '(' :: inside =>
      match takeNested (inside.length + 1) 0 [] inside with
      | some (script, rest) => .ok (.output script quoted, rest)
      | none => .error ⟨0, "Syntax error: end of file unexpected (expecting \")\")"⟩
    | '\x7b' :: '#' :: inside =>
      let name := nameAtStart inside
      match inside.drop name.length with
      | '\x7d' :: rest =>
        if name.isEmpty then .ok (.parameter "#" quoted, rest)
        else .ok (.length (String.ofList name) quoted, rest)
      | _ => .error (badSubstitution inside)
    | '\x7b' :: inside =>
      let name := nameAtStart inside
      if name.isEmpty then .error (badSubstitution inside)
      else
        match inside.drop name.length with
        | '\x7d' :: rest => .ok (.parameter (String.ofList name) quoted, rest)
        | behind =>
          match readAdjustment behind with
          | none =>
            .error (if behind.isEmpty then unclosedBrace quoted else badSubstitution behind)
          | some (kind, emptyToo, word) => do
            let (pieces, rest) ← readPieces .brace (quoted && !kind.takesPattern) n word
            .ok (.adjusted (String.ofList name) kind emptyToo pieces quoted, rest.drop 1)
    | _ =>
      let name := match nameAtStart rest with
        | c :: cs => if c.isDigit then [c] else c :: cs
        | [] => []
      if name.isEmpty then .ok (.text ['$'] quoted, rest)
      else .ok (.parameter (String.ofList name) quoted, rest.drop name.length)

end

/-- Reads a word. -/
def readWord (cs : List Char) : Except SyntaxFault (Word × List Char) :=
  readPieces .word false (4 * cs.length + 4) cs

end SuiteGate.Shell
