import SuiteGate.Json.Parser
import SuiteGate.Toml.Fault
import SuiteGate.Toml.Value
import SuiteGate.Word64
/-!
# Reading TOML

`Toml.parse` reads a text as TOML 1.0: lines with a key and a value, with a header that opens a
table, or with nothing but white space and a comment.  Arrays and inline tables can be nested 79
deep.
-/

namespace SuiteGate.Toml

/-- Fails at the start of the given rest of the text. -/
def failAt {α : Type} (cs : List Char) (message : String) : Except Fault α :=
  .error ⟨cs.length, message⟩

/-! ### White space, comments and line ends -/

/-- Whether a character is white space inside a line. -/
def isSpace (c : Char) : Bool :=
  c = ' ' || c = '\t'

/-- The text after white space. -/
def skipSpace (cs : List Char) : List Char :=
  cs.dropWhile isSpace

/-- Whether a character can stand in a comment. -/
def isCommentChar (c : Char) : Bool :=
  c = '\t' || (0x20 ≤ c.toNat && c.toNat ≠ 0x7F)

/-- The text after a comment, if there is one. -/
def skipComment : List Char → List Char
  | '#' :: cs => cs.dropWhile isCommentChar
  | cs => cs

/-- The text after a line end, if there is one. -/
def afterLineEnd? : List Char → Option (List Char)
  | '\n' :: cs => some cs
  | '\r' :: '\n' :: cs => some cs
  | _ => none

/-- The text after white space, comments and line ends.  The number bounds the lines. -/
def skipLines : Nat → List Char → List Char
  | 0, cs => cs
  | n + 1, cs =>
    let rest := skipComment (skipSpace cs)
    match afterLineEnd? rest with
    | some after => skipLines n after
    | none => rest

/-- The text after white space, comments and line ends. -/
def skipAll (cs : List Char) : List Char :=
  skipLines (cs.length + 1) cs

/-- Goes on with the next line; there is nothing left in this one but a comment. -/
def endLine (cs : List Char) : Except Fault (List Char) :=
  let rest := skipComment (skipSpace cs)
  match rest, afterLineEnd? rest with
  | [], _ => .ok []
  | _, some after => .ok after
  | _, none => failAt rest "expected newline, `#`"

/-! ### Texts -/

/-- The character that an escape of one letter stands for. -/
def escaped? (c : Char) : Option Char :=
  if c = 'b' then some '\x08'
  else if c = 't' then some '\t'
  else if c = 'n' then some '\n'
  else if c = 'f' then some '\x0c'
  else if c = 'r' then some '\r'
  else if c = '"' then some '"'
  else if c = '\\' then some '\\'
  else none

/-- The character with a hexadecimal number of so many digits. -/
def readCodePoint (digits : Nat) (cs : List Char) : Except Fault (Char × List Char) :=
  let number := if cs.length < digits then none else Json.hexNumber? (cs.take digits)
  match number with
  | none => failAt cs "invalid unicode escape"
  | some n =>
    if n.isValidChar then .ok (Char.ofNat n, cs.drop digits)
    else failAt cs "invalid unicode escape"

/-- Reads what follows a backslash. -/
def readEscape : List Char → Except Fault (Char × List Char)
  | 'u' :: cs => readCodePoint 4 cs
  | 'U' :: cs => readCodePoint 8 cs
  | c :: cs =>
    match escaped? c with
    | some e => .ok (e, cs)
    | none => failAt (c :: cs) "invalid escape sequence"
  | [] => failAt [] "invalid escape sequence"

/-- Whether a character can stand as itself in a text on one line. -/
def isTextChar (c : Char) : Bool :=
  isCommentChar c

/-- Reads a text up to a double quote.  The number bounds the characters. -/
def readBasic : Nat → List Char → List Char → Except Fault (String × List Char)
  | 0, _, cs => failAt cs "invalid basic string"
  | _, acc, '"' :: cs => .ok (String.ofList acc.reverse, cs)
  | n + 1, acc, '\\' :: cs => do
    let (c, rest) ← readEscape cs
    readBasic n (c :: acc) rest
  | n + 1, acc, c :: cs =>
    if isTextChar c then readBasic n (c :: acc) cs
    else failAt (c :: cs) "invalid basic string"
  | _, _, [] => failAt [] "invalid basic string"

/-- Reads a text up to a single quote; nothing is escaped. -/
def readLiteral (cs : List Char) : Except Fault (String × List Char) :=
  let body := cs.takeWhile fun c => c ≠ '\'' && isTextChar c
  match cs.drop body.length with
  | '\'' :: rest => .ok (String.ofList body, rest)
  | rest => failAt rest "invalid literal string"

/-- The text after the white space and line ends that follow a backslash at the end of a line, if
it stands at one. -/
def afterContinuation? (cs : List Char) : Option (List Char) :=
  match afterLineEnd? (skipSpace cs) with
  | none => none
  | some rest => some (rest.dropWhile fun c => isSpace c || c = '\n' || c = '\r')

/-- The number of quotes at the start of a text. -/
def quotesAt (quote : Char) (cs : List Char) : Nat :=
  (cs.takeWhile (· = quote)).length

/-- Reads a text over several lines up to three quotes; up to two more belong to the text.  The
number bounds the characters. -/
def readLong (quote : Char) : Nat → List Char → List Char → Except Fault (String × List Char)
  | 0, _, cs => failAt cs "invalid multiline string"
  | n + 1, acc, cs =>
    let quotes := quotesAt quote cs
    if 3 ≤ quotes then
      let own := min (quotes - 3) 2
      .ok (String.ofList (List.replicate own quote ++ acc).reverse, cs.drop (own + 3))
    else
      match cs with
      | [] => failAt [] "invalid multiline string"
      | c :: rest =>
        if c = '\\' && quote = '"' then
          match afterContinuation? rest with
          | some after => readLong quote n acc after
          | none =>
            match readEscape rest with
            | .ok (e, after) => readLong quote n (e :: acc) after
            | .error f => .error f
        else
          match afterLineEnd? cs with
          | some after => readLong quote n ('\n' :: acc) after
          | none =>
            if isTextChar c then readLong quote n (c :: acc) rest
            else failAt cs "invalid multiline string"

/-- The text after a line end that directly follows three opening quotes. -/
def dropFirstLineEnd (cs : List Char) : List Char :=
  (afterLineEnd? cs).getD cs

/-- Reads a text on one line with its quotes. -/
def readShort : List Char → Except Fault (String × List Char)
  | '"' :: cs => readBasic (cs.length + 1) [] cs
  | '\'' :: cs => readLiteral cs
  | cs => failAt cs "invalid string"

/-- Reads a text with its quotes. -/
def readText (cs : List Char) : Except Fault (String × List Char) :=
  match cs with
  | '"' :: '"' :: '"' :: rest =>
    readLong '"' (rest.length + 1) [] (dropFirstLineEnd rest)
  | '\'' :: '\'' :: '\'' :: rest =>
    readLong '\'' (rest.length + 1) [] (dropFirstLineEnd rest)
  | cs => readShort cs

/-! ### Keys -/

/-- Whether a character can stand in a key without quotes. -/
def isKeyChar (c : Char) : Bool :=
  c.isAlphanum || c = '_' || c = '-'

/-- Reads one key. -/
def readKey (cs : List Char) : Except Fault (String × List Char) :=
  let bare := cs.takeWhile isKeyChar
  if bare.isEmpty then
    match cs with
    | '"' :: _ => readShort cs
    | '\'' :: _ => readShort cs
    | _ => failAt cs "invalid key"
  else .ok (String.ofList bare, cs.drop bare.length)

/-- Reads the keys behind the dots that follow a key, with white space around them.  The number
bounds the keys. -/
def readMoreKeys : Nat → List Char → Except Fault (List String × List Char)
  | 0, cs => .ok ([], cs)
  | n + 1, cs =>
    match skipSpace cs with
    | '.' :: rest => do
      let (key, rest) ← readKey (skipSpace rest)
      let (keys, rest) ← readMoreKeys n rest
      .ok (key :: keys, rest)
    | rest => .ok ([], rest)

/-- Reads a dotted key, in which the last key stands apart. -/
def readPath (cs : List Char) : Except Fault ((List String × String) × List Char) := do
  let (key, rest) ← readKey (skipSpace cs)
  let (keys, rest) ← readMoreKeys rest.length rest
  let all := key :: keys
  .ok ((all.dropLast, all.getLastD key), rest)

/-! ### Numbers, dates and times -/

/-- Reads digits of a kind with single underscores between them, and returns the digits alone. -/
def readDigits (kind : Char → Bool) (cs : List Char) : Option (List Char × List Char) :=
  let run := cs.takeWhile fun c => kind c || c = '_'
  let pieces := Text.splitChars '_' run
  if pieces.any List.isEmpty then none else some (pieces.flatten, cs.drop run.length)

/-- The number with given digits, if it fits into 64 bits with its sign. -/
def boundedInt? (base : Nat) (negative : Bool) (digits : List Char) : Option Int := do
  let n ← Document.ofDigits? base digits
  let signed : Int := if negative then -n else n
  if Word64.fitsSigned signed then some signed else none

/-- Reads a whole number in another base. -/
def readBased (base : Nat) (cs : List Char) : Option (Value × List Char) := do
  let (digits, rest) ← readDigits (fun c => c.isAlphanum && Document.digitValue c < base) cs
  some (.int (← boundedInt? base false digits), rest)

/-- Reads an exponent, if there is one. -/
def readExponent : List Char → Option (Option Int × List Char)
  | [] => some (none, [])
  | c :: cs =>
    if c = 'e' || c = 'E' then do
      let (negative, cs) := match cs with
        | '-' :: rest => (true, rest)
        | '+' :: rest => (false, rest)
        | rest => (false, rest)
      let (digits, rest) ← readDigits Char.isDigit cs
      let n : Int := Json.decimal digits
      some (some (if negative then -n else n), rest)
    else some (none, c :: cs)

/-- Reads a fraction, if there is one. -/
def readFraction : List Char → Option (Option (List Char) × List Char)
  | '.' :: cs => do
    let (digits, rest) ← readDigits Char.isDigit cs
    some (some digits, rest)
  | cs => some (none, cs)

/-- Reads a decimal number without its sign. -/
def readDecimal (negative : Bool) (cs : List Char) : Option (Value × List Char) := do
  let (whole, rest) ← readDigits Char.isDigit cs
  if whole.head? = some '0' && 1 < whole.length then none
  let (fraction, rest) ← readFraction rest
  let (exponent, rest) ← readExponent rest
  if fraction.isNone && exponent.isNone then
    some (.int (← boundedInt? 10 negative whole), rest)
  else
    let digits := fraction.getD []
    if Json.decimalInRange (Json.decimal (whole ++ digits)) (exponent.getD 0 - digits.length) then
      some (.other, rest)
    else none

/-- Reads the number with so many digits. -/
def readFixed (width : Nat) (cs : List Char) : Option (Nat × List Char) :=
  let digits := cs.take width
  if digits.length = width && digits.all Char.isDigit then
    some (Json.decimal digits, cs.drop width)
  else none

/-- Reads one given character. -/
def readChar (c : Char) : List Char → Option (List Char)
  | d :: cs => if d = c then some cs else none
  | [] => none

/-- The number of days in a month. -/
def daysIn (year month : Nat) : Nat :=
  if month = 2 then
    if year % 4 = 0 && (year % 100 ≠ 0 || year % 400 = 0) then 29 else 28
  else if month = 4 || month = 6 || month = 9 || month = 11 then 30
  else 31

/-- Reads a date. -/
def readDate (cs : List Char) : Option (List Char) := do
  let (year, rest) ← readFixed 4 cs
  let (month, rest) ← readFixed 2 (← readChar '-' rest)
  let (day, rest) ← readFixed 2 (← readChar '-' rest)
  if 1 ≤ month && month ≤ 12 && 1 ≤ day && day ≤ daysIn year month then some rest else none

/-- Reads the fraction of a second, if there is one. -/
def readSubsecond : List Char → Option (List Char)
  | '.' :: cs =>
    let digits := cs.takeWhile Char.isDigit
    if digits.isEmpty then none else some (cs.drop digits.length)
  | cs => some cs

/-- Reads a time of day. -/
def readTime (cs : List Char) : Option (List Char) := do
  let (hour, rest) ← readFixed 2 cs
  let (minute, rest) ← readFixed 2 (← readChar ':' rest)
  let (second, rest) ← readFixed 2 (← readChar ':' rest)
  if hour ≤ 23 && minute ≤ 59 && second ≤ 60 then readSubsecond rest else none

/-- Reads an offset from universal time, if there is one. -/
def readOffset : List Char → Option (List Char)
  | 'Z' :: cs => some cs
  | 'z' :: cs => some cs
  | c :: cs =>
    if c = '+' || c = '-' then do
      let (hour, rest) ← readFixed 2 cs
      let (minute, rest) ← readFixed 2 (← readChar ':' rest)
      if hour ≤ 23 && minute ≤ 59 then some rest else none
    else some (c :: cs)
  | [] => some []

/-- Whether a date is followed by a time of day. -/
def timeFollows : List Char → Bool
  | c :: d :: _ => c = 'T' || c = 't' || (c = ' ' && d.isDigit)
  | _ => false

/-- Reads a date, a time, or both. -/
def readMoment (cs : List Char) : Option (Value × List Char) :=
  if cs[2]? = some ':' then (readTime cs).map fun rest => (.other, rest)
  else do
    let rest ← readDate cs
    if timeFollows rest then
      let rest ← readOffset (← readTime rest.tail)
      some (.other, rest)
    else some (.other, rest)

/-- Whether a text starts with a date or a time. -/
def startsMoment (cs : List Char) : Bool :=
  ((cs.take 4).length = 4 && (cs.take 4).all Char.isDigit && cs[4]? = some '-') ||
    ((cs.take 2).length = 2 && (cs.take 2).all Char.isDigit && cs[2]? = some ':')

/-- Reads a number without its sign, or what stands for infinity or for no number. -/
def readUnsigned (negative : Bool) : List Char → Option (Value × List Char)
  | 'i' :: 'n' :: 'f' :: rest => some (.other, rest)
  | 'n' :: 'a' :: 'n' :: rest => some (.other, rest)
  | cs => readDecimal negative cs

/-- Reads a number, a date or a time. -/
def readNumber (cs : List Char) : Option (Value × List Char) :=
  if startsMoment cs then readMoment cs
  else
    match cs with
    | '0' :: 'x' :: rest => readBased 16 rest
    | '0' :: 'o' :: rest => readBased 8 rest
    | '0' :: 'b' :: rest => readBased 2 rest
    | '+' :: rest => readUnsigned false rest
    | '-' :: rest => readUnsigned true rest
    | cs => readUnsigned false cs

/-! ### Values -/

/-- Reads a value that holds no others. -/
def readSimple (cs : List Char) : Except Fault (Value × List Char) :=
  match cs with
  | '"' :: _ => (readText cs).map fun r => (.text r.1, r.2)
  | '\'' :: _ => (readText cs).map fun r => (.text r.1, r.2)
  | 't' :: 'r' :: 'u' :: 'e' :: rest => .ok (.bool true, rest)
  | 'f' :: 'a' :: 'l' :: 's' :: 'e' :: rest => .ok (.bool false, rest)
  | cs =>
    match readNumber cs with
    | some r => .ok r
    | none => failAt cs "invalid value"

mutual

/-- Reads a value.  The first number bounds the nesting, the second the items and members. -/
def readValue : Nat → Nat → List Char → Except Fault (Value × List Char)
  | 0, _, cs => failAt cs "recursion limit exceeded"
  | depth + 1, n, '[' :: rest => readItems depth n [] (skipAll rest)
  | depth + 1, n, '\x7b' :: rest =>
    match skipSpace rest with
    | '\x7d' :: rest => .ok (.inline [], rest)
    | rest => readMembers depth n [] rest
  | _ + 1, _, cs => readSimple cs

/-- Reads the items of an array up to its end. -/
def readItems : Nat → Nat → List Value → List Char → Except Fault (Value × List Char)
  | _, _, acc, ']' :: rest => .ok (.array acc.reverse, rest)
  | _, 0, _, cs => failAt cs "invalid array"
  | depth, n + 1, acc, cs =>
    match readValue depth n cs with
    | .error f => .error f
    | .ok (v, rest) =>
      match skipAll rest with
      | ',' :: rest => readItems depth n (v :: acc) (skipAll rest)
      | ']' :: rest => .ok (.array (v :: acc).reverse, rest)
      | rest => failAt rest "invalid array\nexpected `]`"

/-- Reads the members of an inline table up to its end. -/
def readMembers : Nat → Nat → Members → List Char → Except Fault (Value × List Char)
  | _, 0, _, cs => failAt cs "invalid inline table"
  | depth, n + 1, acc, cs =>
    match readPath cs with
    | .error f => .error f
    | .ok ((path, key), rest) =>
      match skipSpace rest with
      | '=' :: rest =>
        match readValue depth n (skipSpace rest) with
        | .error f => .error f
        | .ok (v, rest) =>
          match insert path key v false acc with
          | none => failAt cs "duplicate key"
          | some acc =>
            match skipSpace rest with
            | ',' :: rest => readMembers depth n acc rest
            | '\x7d' :: rest => .ok (.inline acc, rest)
            | rest => failAt rest "invalid inline table\nexpected `\x7d`"
      | rest => failAt rest "expected `.`, `=`"

end

/-- The number of arrays and inline tables that can be nested. -/
def maxNesting : Nat := 79

/-! ### Documents -/

/-- A document that has been read so far: its members, and the path of the table that was opened
last. -/
structure Draft where
  members : Members
  here : List String

/-- Reads a header and opens its table. -/
def readHeader (draft : Draft) (isArray : Bool) (cs : List Char) :
    Except Fault (Draft × List Char) := do
  let header : Fault → Fault := fun f => { f with message := "invalid table header\n" ++ f.message }
  let ((path, key), rest) ← (readPath cs).mapError header
  let rest := skipSpace rest
  let after := match isArray, rest with
    | true, ']' :: ']' :: after => some after
    | false, ']' :: after => some after
    | _, _ => none
  match after with
  | none => failAt rest "invalid table header\nexpected `.`, `]`"
  | some after =>
    let opened := if isArray then openItem path key draft.members
      else openTable path key draft.members
    match opened with
    | none => failAt cs "invalid table header\nduplicate key"
    | some members => .ok (⟨members, path ++ [key]⟩, after)

/-- Reads a line with a key and a value. -/
def readSetting (draft : Draft) (cs : List Char) : Except Fault (Draft × List Char) := do
  let ((path, key), rest) ← readPath cs
  match skipSpace rest with
  | '=' :: rest =>
    let (v, rest) ← readValue (maxNesting + 1) rest.length (skipSpace rest)
    match descend false (fun _ inner => insert path key v false inner) draft.here false
        draft.members with
    | none => failAt cs "duplicate key"
    | some members => .ok ({ draft with members }, rest)
  | rest => failAt rest "expected `.`, `=`"

/-- Reads the lines of a document.  The number bounds the lines. -/
def readLines : Nat → Draft → List Char → Except Fault Draft
  | 0, draft, _ => .ok draft
  | n + 1, draft, cs =>
    match skipSpace cs with
    | [] => .ok draft
    | '[' :: '[' :: rest => do
      let (draft, rest) ← readHeader draft true rest
      readLines n draft (← endLine rest)
    | '[' :: rest => do
      let (draft, rest) ← readHeader draft false rest
      readLines n draft (← endLine rest)
    | c :: rest =>
      if c = '#' || c = '\n' || c = '\r' then do
        readLines n draft (← endLine (c :: rest))
      else do
        let (draft, rest) ← readSetting draft (c :: rest)
        readLines n draft (← endLine rest)

/-- The document that a text is.  A byte order mark at its start does not count. -/
def parse (s : String) : Except Fault Document := do
  let cs := match s.toList with
    | '\uFEFF' :: rest => rest
    | cs => cs
  let draft ← readLines (cs.length + 1) ⟨[], []⟩ cs
  .ok (.table (toMembers draft.members))

end SuiteGate.Toml
