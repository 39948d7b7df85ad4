import SuiteGate.Text.Utf8
import SuiteGate.Yaml.Scalar
/-!
# YAML tokens

The pieces that a YAML text is made of (`Yaml.Token`), and how a text is taken apart
(`Yaml.tokens?`).  Indentation appears as tokens that open and close blocks.  What may turn out to
be the key of a member is kept in mind (`PendingKey`) until a colon comes or the line is over; the
tokens that say so are then put in front of it.
-/

namespace SuiteGate.Yaml

/-- How a scalar is written. -/
inductive ScalarStyle where
  | bare
  | quoted
  | folded
  | literal
deriving DecidableEq, Repr

/-- What a line in front of a document says. -/
inductive Directive where
  | version (major minor : Nat)
  | tag (handle beginning : String)
deriving DecidableEq, Repr

/-- A piece of a YAML text. -/
inductive Token where
  | directive (d : Directive)
  | documentStart
  | documentEnd
  | blockList
  | blockTable
  | blockEnd
  | flowList
  | flowListEnd
  | flowTable
  | flowTableEnd
  | item
  | comma
  | key
  | value
  | alias (name : String)
  | anchor (name : String)
  | tag (handle suffix : String)
  | scalar (text : String) (style : ScalarStyle)
deriving DecidableEq, Repr

/-! ### Tags, names and directives -/

/-- Reads a name. -/
def readName (c : Cursor) : List Char × Cursor :=
  let name := c.rest.takeWhile isNameChar
  (name, c.skip name.length)

/-- The octet that a percent sign and two digits stand for. -/
def escapedOctet? : List Char → Option UInt8
  | '%' :: a :: b :: _ => (Json.hexNumber? [a, b]).map Nat.toUInt8
  | _ => none

/-- Whether a character can stand in the text of a tag. -/
def isTagChar (verbatim : Bool) (c : Char) : Bool :=
  isNameChar c || ";/?:@&=+$.!~*'()".toList.contains c ||
    (verbatim && (c = ',' || c = '[' || c = ']'))

/-- Reads octets written with percent signs.  The number bounds them. -/
def readOctets : Nat → List UInt8 → Cursor → Option (List UInt8 × Cursor)
  | 0, acc, c => some (acc, c)
  | n + 1, acc, c =>
    if c.isAt ['%'] then
      match escapedOctet? c.rest with
      | some b => readOctets n (acc ++ [b]) (c.skip 3)
      | none => none
    else some (acc, c)

/-- Reads the text of a tag.  The number bounds the characters. -/
def readTagText (verbatim : Bool) : Nat → List Char → Cursor → Option (List Char × Cursor)
  | 0, acc, c => some (acc, c)
  | n + 1, acc, c =>
    if c.isAt ['%'] then
      match readOctets c.rest.length [] c with
      | some (octets, c) =>
        match Text.decode? ⟨octets.toArray⟩ with
        | some text => readTagText verbatim n (acc ++ text.toList) c
        | none => none
      | none => none
    else if (c.peek? 0).any (isTagChar verbatim) then
      readTagText verbatim n (acc ++ c.rest.take 1) (c.skip 1)
    else some (acc, c)

/-- Reads the handle of a tag, which starts with an exclamation mark. -/
def readHandle (c : Cursor) : Option (List Char × Cursor) :=
  if !c.isAt ['!'] then none
  else
    let (name, c) := readName (c.skip 1)
    if c.isAt ['!'] then some ('!' :: name ++ ['!'], c.skip 1) else some ('!' :: name, c)

/-- Reads a tag. -/
def readTag (c : Cursor) : Option (Token × Cursor) :=
  let size := c.rest.length + 1
  if c.isAt ['!', '<'] then do
    let (text, c) ← readTagText true size [] (c.skip 2)
    if text.isEmpty || !c.isAt ['>'] then none
    else some (.tag "" (String.ofList text), c.skip 1)
  else do
    let (handle, c) ← readHandle c
    if 2 ≤ handle.length && handle.getLast? = some '!' then
      let (text, c) ← readTagText false size [] c
      if text.isEmpty then none
      else some (.tag (String.ofList handle) (String.ofList text), c)
    else
      let (text, c) ← readTagText false size (handle.drop 1) c
      if text.isEmpty then some (.tag "" "!", c) else some (.tag "!" (String.ofList text), c)

/-- Reads a tag with the gap behind it; inside brackets a comma may follow. -/
def readTagToken (inFlow : Bool) (c : Cursor) : Option (Token × Cursor) := do
  let (t, c) ← readTag c
  if atGap c.rest || (inFlow && c.isAt [',']) then some (t, c) else none

/-- Reads the name behind the sign of an anchor or alias. -/
def readAnchorName (c : Cursor) : Option (String × Cursor) :=
  let (name, c) := readName (c.skip 1)
  if name.isEmpty then none
  else if atGap c.rest || (c.peek? 0).any "?:,]\x7d%@`".toList.contains then
    some (String.ofList name, c)
  else none

/-- Reads one of the two numbers of a version. -/
def readVersionNumber (c : Cursor) : Option (Nat × Cursor) :=
  let digits := c.rest.takeWhile Char.isDigit
  if digits.isEmpty || 9 < digits.length then none
  else
    some (digits.foldl (fun n d => n * 10 + (d.toNat - '0'.toNat)) 0, c.skip digits.length)

/-- Reads what a directive says about the version. -/
def readVersion (c : Cursor) : Option (Directive × Cursor) := do
  let (major, c) ← readVersionNumber c.skipSpaces
  if !c.isAt ['.'] then none
  else
    let (minor, c) ← readVersionNumber (c.skip 1)
    some (.version major minor, c)

/-- Reads what a directive says about a handle. -/
def readTagDirective (c : Cursor) : Option (Directive × Cursor) := do
  let (handle, c) ← readHandle c.skipSpaces
  if handle ≠ ['!'] && (handle.length < 2 || handle.getLast? ≠ some '!') then none
  else if !(c.peek? 0).any isSpace then none
  else
    let c := c.skipSpaces
    let (text, c) ← readTagText true (c.rest.length + 1) [] c
    if text.isEmpty || !atGap c.rest then none
    else some (.tag (String.ofList handle) (String.ofList text), c)

/-- Reads a directive with its line. -/
def readDirective (c : Cursor) : Option (Directive × Cursor) := do
  let (name, c) := readName (c.skip 1)
  if !atGap c.rest then none
  else
    let (d, c) ←
      if name = "YAML".toList then readVersion c
      else if name = "TAG".toList then readTagDirective c
      else none
    let c := c.skipSpaces
    let c := if c.isAt ['#'] then c.skipToBreak else c
    if atBreakOrEnd c.rest then some (d, c.readBreak.2) else none

/-! ### Taking a text apart -/

/-- A place that may turn out to start a key. -/
structure PendingKey where
  /-- Whether it can be nothing else. -/
  required : Bool
  /-- The number of tokens before it. -/
  before : Nat
  line : Nat
  column : Nat
  index : Nat

/-- A text that has been taken apart up to some place. -/
structure Draft where
  cursor : Cursor
  tokens : Array Token := #[]
  /-- What may be a key, for each pair of open brackets and for what is around them, innermost
  first. -/
  keys : List (Option PendingKey) := [none]
  /-- The least column of a block inside the innermost one. -/
  inner : Nat := 0
  /-- The same for the blocks around it. -/
  around : List Nat := []
  /-- Whether a key may start here. -/
  keyAllowed : Bool := true
  ended : Bool := false

namespace Draft

/-- Whether the place is inside brackets. -/
def inFlow (d : Draft) : Bool :=
  1 < d.keys.length

/-- The draft with one more token. -/
def push (d : Draft) (t : Token) : Draft :=
  { d with tokens := d.tokens.push t }

/-- The draft with a token put behind so many others. -/
def insert (d : Draft) (before : Nat) (t : Token) : Draft :=
  { d with tokens := (d.tokens.extract 0 before).push t ++ d.tokens.extract before d.tokens.size }

/-- The draft with so many characters read. -/
def skip (d : Draft) (n : Nat) : Draft :=
  { d with cursor := d.cursor.skip n }

/-- Closes blocks until the least inner column is at most the given one.  The number bounds the
blocks. -/
def closeTo (least : Nat) : Nat → Draft → Draft
  | 0, d => d
  | n + 1, d =>
    if least < d.inner then
      closeTo least n
        { d.push .blockEnd with inner := d.around.headD 0, around := d.around.drop 1 }
    else d

/-- Closes the blocks that a line at the given column ends. -/
def close (d : Draft) (least : Nat) : Draft :=
  if d.inFlow then d else closeTo least (d.around.length + 1) d

/-- Opens a block at the given column behind so many tokens, unless there is one. -/
def openBlock (d : Draft) (column before : Nat) (t : Token) : Draft :=
  if d.inFlow || column < d.inner then d
  else { d.insert before t with inner := column + 1, around := d.inner :: d.around }

/-- Gives up what may be a key; a required one must not be given up. -/
def dropKey (d : Draft) : Option Draft :=
  match d.keys with
  | some k :: rest => if k.required then none else some { d with keys := none :: rest }
  | _ => some d

/-- Keeps the place in mind if a key may start here. -/
def markKey (d : Draft) : Option Draft :=
  if !d.keyAllowed then some d
  else do
    let c := d.cursor
    let key : PendingKey :=
      ⟨!d.inFlow && d.inner = c.column + 1, d.tokens.size, c.line, c.column, c.index⟩
    let d ← d.dropKey
    some { d with keys := some key :: d.keys.drop 1 }

/-- Whether what may be a key is too far behind to be one. -/
def isStale (c : Cursor) (k : PendingKey) : Bool :=
  k.line < c.line || k.index + 1024 < c.index

/-- Gives up what is too far behind. -/
def expireKeys (d : Draft) : Option Draft := do
  let keys ← d.keys.mapM fun key? =>
    match key? with
    | some k =>
      if isStale d.cursor k then (if k.required then none else some none) else some (some k)
    | none => some none
  some { d with keys := keys }

/-- Goes over blanks, comments and line breaks.  The number bounds the lines. -/
def skipGaps : Nat → Draft → Draft
  | 0, d => d
  | n + 1, d =>
    let c := d.cursor
    let c := if c.index = 0 && c.isAt ['\ufeff'] then c.skip 1 else c
    let tabs := d.inFlow || !d.keyAllowed
    let c := c.skip (c.rest.takeWhile fun x => x = ' ' || (tabs && x = '\t')).length
    let c := if c.isAt ['#'] then c.skipToBreak else c
    if (c.peek? 0).any isBreak then
      skipGaps n { d with cursor := c.readBreak.2, keyAllowed := d.keyAllowed || !d.inFlow }
    else { d with cursor := c }

/-- Reads a mark between documents. -/
def documentMark (d : Draft) (t : Token) : Option Draft := do
  let d ← (d.close 0).dropKey
  some ({ d with keyAllowed := false }.push t |>.skip 3)

/-- Reads a directive. -/
def directive (d : Draft) : Option Draft := do
  let d ← (d.close 0).dropKey
  let (r, c) ← readDirective d.cursor
  some ({ d with keyAllowed := false, cursor := c }.push (.directive r))

/-- Reads an opening bracket. -/
def openFlow (d : Draft) (t : Token) : Option Draft := do
  let d ← d.markKey
  some ({ d with keys := none :: d.keys, keyAllowed := true }.push t |>.skip 1)

/-- Reads a closing bracket. -/
def closeFlow (d : Draft) (t : Token) : Option Draft := do
  let d ← d.dropKey
  let keys := if d.inFlow then d.keys.drop 1 else d.keys
  some ({ d with keys := keys, keyAllowed := false }.push t |>.skip 1)

/-- Reads a comma. -/
def comma (d : Draft) : Option Draft := do
  let d ← d.dropKey
  some ({ d with keyAllowed := true }.push .comma |>.skip 1)

/-- Opens a block here, where a key has to be allowed unless there are brackets around. -/
def openHere (d : Draft) (t : Token) : Option Draft :=
  if d.inFlow then some d
  else if d.keyAllowed then some (d.openBlock d.cursor.column d.tokens.size t)
  else none

/-- Reads the dash in front of an item. -/
def item (d : Draft) : Option Draft := do
  let d ← (← d.openHere .blockList).dropKey
  some ({ d with keyAllowed := true }.push .item |>.skip 1)

/-- Reads the question mark in front of a key. -/
def key (d : Draft) : Option Draft := do
  let d ← (← d.openHere .blockTable).dropKey
  some ({ d with keyAllowed := !d.inFlow }.push .key |>.skip 1)

/-- Reads the colon in front of a value. -/
def value (d : Draft) : Option Draft := do
  match d.keys with
  | some k :: rest =>
    let d := (d.insert k.before .key).openBlock k.column k.before .blockTable
    some ({ d with keys := none :: rest, keyAllowed := false }.push .value |>.skip 1)
  | _ =>
    let d ← d.openHere .blockTable
    some ({ d with keyAllowed := !d.inFlow }.push .value |>.skip 1)

/-- Reads something that may be a key, or stand in front of one. -/
def mayBeKey (d : Draft) (read : Cursor → Option (Token × Bool × Cursor)) : Option Draft := do
  let d ← d.markKey
  let (t, fresh, c) ← read d.cursor
  some ({ d with keyAllowed := fresh, cursor := c }.push t)

/-- Reads an indented scalar. -/
def block (d : Draft) (literal : Bool) : Option Draft := do
  let d ← d.dropKey
  let (s, c) ← readBlock literal d.inner d.cursor
  some ({ d with keyAllowed := true, cursor := c }.push
    (.scalar s (if literal then .literal else .folded)))

/-- Whether a bare scalar can start here. -/
def atBare (d : Draft) : Bool :=
  match d.cursor.rest with
  | [] => false
  | x :: rest =>
    let blank := rest.head?.any isSpace
    !(isSpace x || isBreak x || "-?:,[]\x7b\x7d#&*!|>'\"%@`".toList.contains x) ||
      (x = '-' && !blank) || (!d.inFlow && (x = '?' || x = ':') && !atGap rest)

/-- The end of the text. -/
def finish (d : Draft) : Option Draft := do
  let d ← (d.close 0).dropKey
  some { d with ended := true }

/-- Reads what starts at the place. -/
def readHere (d : Draft) : Option Draft :=
  let c := d.cursor
  let quoted (single : Bool) : Option Draft := d.mayBeKey fun c =>
    (readQuoted single c).map fun r => (.scalar r.1 .quoted, false, r.2)
  let mark (isMark : Char → Bool) : Bool :=
    (c.peek? 0).any isMark && (d.inFlow || c.gapAt 1)
  if c.rest.isEmpty then d.finish
  else if c.column = 0 && c.isAt ['%'] then d.directive
  else if c.isAtDocumentMark then
    d.documentMark (if c.isAt ['-'] then .documentStart else .documentEnd)
  else if c.isAt ['['] then d.openFlow .flowList
  else if c.isAt ['\x7b'] then d.openFlow .flowTable
  else if c.isAt [']'] then d.closeFlow .flowListEnd
  else if c.isAt ['\x7d'] then d.closeFlow .flowTableEnd
  else if c.isAt [','] then d.comma
  else if c.isAt ['-'] && c.gapAt 1 then d.item
  else if mark (· = '?') then d.key
  else if mark (· = ':') then d.value
  else if c.isAt ['*'] then
    d.mayBeKey fun c => (readAnchorName c).map fun r => (.alias r.1, false, r.2)
  else if c.isAt ['&'] then
    d.mayBeKey fun c => (readAnchorName c).map fun r => (.anchor r.1, false, r.2)
  else if c.isAt ['!'] then
    d.mayBeKey fun c => (readTagToken d.inFlow c).map fun r => (r.1, false, r.2)
  else if !d.inFlow && c.isAt ['|'] then d.block true
  else if !d.inFlow && c.isAt ['>'] then d.block false
  else if c.isAt ['\''] then quoted true
  else if c.isAt ['"'] then quoted false
  else if d.atBare then
    d.mayBeKey fun c => (readPlain d.inFlow d.inner c).map fun r => (.scalar r.1 .bare, r.2)
  else none

/-- Reads the next piece with the gap in front of it. -/
def step (d : Draft) : Option Draft := do
  let d ← (d.skipGaps (d.cursor.rest.length + 1)).expireKeys
  (d.close (d.cursor.column + 1)).readHere

/-- Reads pieces to the end of the text.  The number bounds them. -/
def run : Nat → Draft → Option Draft
  | 0, _ => none
  | n + 1, d => if d.ended then some d else d.step >>= run n

end Draft

/-- The tokens of a text, if it can be taken apart. -/
def tokens? (text : String) : Option (List Token) :=
  let cs := text.toList
  if cs.all isAllowed then
    (Draft.run (cs.length + 2) { cursor := .start cs }).map (·.tokens.toList)
  else none

end SuiteGate.Yaml
