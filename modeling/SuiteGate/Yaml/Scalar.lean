import SuiteGate.Json.Parser
import SuiteGate.Yaml.Cursor
/-!
# YAML scalars

Reading scalars: bare ones (`readPlain`), quoted ones (`readQuoted`) and those whose lines are
indented (`readBlock`).  Where a scalar goes over several lines, one line break becomes a blank
and more of them become one less (`Gap.joined`).
-/

namespace SuiteGate.Yaml

/-! ### Gaps -/

/-- The blanks and line breaks between two pieces of a scalar. -/
structure Gap where
  /-- Whether there is a line break. -/
  broken : Bool := false
  /-- The blanks before the first line break. -/
  blanks : List Char := []
  /-- The first line break. -/
  first : List Char := []
  /-- The other line breaks. -/
  others : List Char := []

namespace Gap

/-- What a gap becomes between two pieces. -/
def joined (g : Gap) : List Char :=
  if !g.broken then g.blanks
  else if g.first = ['\n'] then (if g.others.isEmpty then [' '] else g.others)
  else g.first ++ g.others

/-- Reads blanks and line breaks.  At the start of a line a tab must not stand before the given
column.  The number bounds the characters. -/
def read (tabLimit : Nat) : Nat → Gap → Cursor → Option (Gap × Cursor)
  | 0, g, c => some (g, c)
  | n + 1, g, c =>
    match c.rest with
    | [] => some (g, c)
    | x :: _ =>
      if isSpace x then
        if g.broken then
          if x = '\t' && c.column < tabLimit then none else read tabLimit n g (c.skip 1)
        else read tabLimit n { g with blanks := g.blanks ++ [x] } (c.skip 1)
      else if isBreak x then
        let (text, c) := c.readBreak
        let g := if g.broken then { g with others := g.others ++ text }
          else { g with broken := true, first := text }
        read tabLimit n g c
      else some (g, c)

end Gap

/-! ### Bare scalars -/

/-- The characters that end a bare scalar inside brackets. -/
def isFlowMark (c : Char) : Bool :=
  c = ',' || c = '[' || c = ']' || c = '\x7b' || c = '\x7d'

/-- Reads a run of characters of a bare scalar up to a gap or a mark. -/
def readRun (inFlow : Bool) : List Char → Option (List Char)
  | [] => some []
  | c :: cs =>
    if isSpace c || isBreak c then some []
    else if inFlow && c = ':' && (cs.head?.map fun d => isFlowMark d || d = '?') = some true then
      none
    else if (c = ':' && atGap cs) || (inFlow && isFlowMark c) then some []
    else (readRun inFlow cs).map (c :: ·)

/-- Reads a bare scalar whose later lines start at the given column at least.  The result says
whether it ended at the start of a line.  The number bounds the runs. -/
def readPlainFrom (inFlow : Bool) (indent : Nat) :
    Nat → List Char → Gap → Cursor → Option (List Char × Bool × Cursor)
  | 0, acc, g, c => some (acc, g.broken, c)
  | n + 1, acc, g, c =>
    if c.isAtDocumentMark || c.peek? 0 = some '#' then some (acc, g.broken, c)
    else
      match readRun inFlow c.rest with
      | none => none
      | some [] => some (acc, g.broken, c)
      | some run =>
        let acc := acc ++ g.joined ++ run
        let c := c.skip run.length
        if c.rest.isEmpty || !atGap c.rest then some (acc, false, c)
        else
          match Gap.read indent (c.rest.length + 1) {} c with
          | none => none
          | some (g, c) =>
            if !inFlow && c.column < indent then some (acc, g.broken, c)
            else readPlainFrom inFlow indent n acc g c

/-- Reads a bare scalar. -/
def readPlain (inFlow : Bool) (indent : Nat) (c : Cursor) : Option (String × Bool × Cursor) :=
  (readPlainFrom inFlow indent (c.rest.length + 1) [] {} c).map fun r =>
    (String.ofList r.1, r.2)

/-! ### Quoted scalars -/

/-- The character that an escape of one letter stands for. -/
def escaped? (c : Char) : Option Char :=
  [('0', '\x00'), ('a', '\x07'), ('b', '\x08'), ('t', '\t'), ('\t', '\t'), ('n', '\n'),
   ('v', '\x0b'), ('f', '\x0c'), ('r', '\r'), ('e', '\x1b'), (' ', ' '), ('"', '"'), ('/', '/'),
   ('\\', '\\'), ('N', '\x85'), ('_', '\xa0'), ('L', '\u2028'), ('P', '\u2029')].lookup c

/-- The number of hexadecimal digits of an escape. -/
def escapeDigits? (c : Char) : Option Nat :=
  [('x', 2), ('u', 4), ('U', 8)].lookup c

/-- Reads an escape, the backslash included. -/
def readEscape (c : Cursor) : Option (Char × Cursor) := do
  let e ← c.peek? 1
  match escapeDigits? e with
  | none => some (← escaped? e, c.skip 2)
  | some digits =>
    let cs := (c.rest.drop 2).take digits
    if cs.length < digits then none
    else
      let n ← Json.hexNumber? cs
      if n.isValidChar then some (Char.ofNat n, c.skip (2 + digits)) else none

/-- Reads characters of a quoted scalar up to a gap or its end.  The result says whether a line
break was escaped there.  The number bounds the characters. -/
def readQuotedRun (single : Bool) :
    Nat → List Char → Cursor → Option (List Char × Bool × Cursor)
  | 0, acc, c => some (acc, false, c)
  | n + 1, acc, c =>
    if atGap c.rest then some (acc, false, c)
    else if single then
      if c.isAt ['\'', '\''] then readQuotedRun single n (acc ++ ['\'']) (c.skip 2)
      else if c.isAt ['\''] then some (acc, false, c)
      else readQuotedRun single n (acc ++ c.rest.take 1) (c.skip 1)
    else if c.isAt ['"'] then some (acc, false, c)
    else if c.isAt ['\\'] then
      if (c.peek? 1).any isBreak then some (acc, true, ((c.skip 1).readBreak).2)
      else
        match readEscape c with
        | none => none
        | some (e, c) => readQuotedRun single n (acc ++ [e]) c
    else readQuotedRun single n (acc ++ c.rest.take 1) (c.skip 1)

/-- Reads a quoted scalar from behind its opening quote.  The number bounds the lines. -/
def readQuotedFrom (single : Bool) : Nat → List Char → Cursor → Option (List Char × Cursor)
  | 0, _, _ => none
  | n + 1, acc, c =>
    if c.isAtDocumentMark || c.rest.isEmpty then none
    else
      match readQuotedRun single (c.rest.length + 1) acc c with
      | none => none
      | some (acc, escaped, c) =>
        if c.isAt [if single then '\'' else '"'] then some (acc, c.skip 1)
        else
          match Gap.read 0 (c.rest.length + 1) { broken := escaped } c with
          | none => none
          | some (g, c) => readQuotedFrom single n (acc ++ g.joined) c

/-- Reads a quoted scalar. -/
def readQuoted (single : Bool) (c : Cursor) : Option (String × Cursor) :=
  (readQuotedFrom single (c.rest.length + 1) [] (c.skip 1)).map fun r => (String.ofList r.1, r.2)

/-! ### Indented scalars -/

/-- What becomes of the line breaks at the end of an indented scalar. -/
inductive Chomping where
  | strip
  | clip
  | keep
deriving DecidableEq, Repr

/-- The chomping that a character asks for. -/
def chomping? (c : Option Char) : Option Chomping :=
  if c = some '+' then some .keep else if c = some '-' then some .strip else none

/-- The indentation that a character asks for. -/
def indentation? (c : Option Char) : Option Nat :=
  (c.filter Char.isDigit).map fun d => d.toNat - '0'.toNat

/-- Reads the marks behind the indicator of an indented scalar: chomping and indentation in either
order.  An indentation of zero is none. -/
def readBlockMarks (c : Cursor) : Option (Chomping × Option Nat × Cursor) :=
  match chomping? (c.peek? 0) with
  | some chomping =>
    match indentation? (c.peek? 1) with
    | some 0 => none
    | some n => some (chomping, some n, c.skip 2)
    | none => some (chomping, none, c.skip 1)
  | none =>
    match indentation? (c.peek? 0) with
    | some 0 => none
    | some n =>
      match chomping? (c.peek? 1) with
      | some chomping => some (chomping, some n, c.skip 2)
      | none => some (.clip, some n, c.skip 1)
    | none => some (.clip, none, c)

/-- Reads the rest of the line behind an indicator, which holds nothing but a comment. -/
def readBlockHeaderEnd (c : Cursor) : Option Cursor :=
  let c := c.skipSpaces
  let c := if c.isAt ['#'] then c.skipToBreak else c
  if atBreakOrEnd c.rest then some c.readBreak.2 else none

/-- Reads the indentation of lines and the line breaks of empty ones.  Without a given indentation
all blanks count, and the result has the deepest column.  The number bounds the lines. -/
def readIndentation (indent : Option Nat) :
    Nat → List Char → Nat → Cursor → Option (List Char × Nat × Cursor)
  | 0, breaks, deepest, c => some (breaks, deepest, c)
  | n + 1, breaks, deepest, c =>
    let blanks := (c.rest.takeWhile (· = ' ')).length
    let c := c.skip (match indent with
      | some i => min blanks (i - c.column)
      | none => blanks)
    let deepest := max deepest c.column
    let early := match indent with
      | some i => c.column < i
      | none => true
    if early && c.peek? 0 = some '\t' then none
    else
      match c.rest with
      | [] => some (breaks, deepest, c)
      | x :: _ =>
        if isBreak x then
          let (text, c) := c.readBreak
          readIndentation indent n (breaks ++ text) deepest c
        else some (breaks, deepest, c)

/-- The lines of an indented scalar that have been read: the text, the line break behind it, the
empty lines behind that, and whether the last line started with a blank. -/
structure BlockDraft where
  text : List Char
  first : List Char
  others : List Char
  blankStart : Bool

/-- Reads the lines of an indented scalar.  The number bounds the lines. -/
def readBlockLines (literal : Bool) (indent : Nat) :
    Nat → BlockDraft → Cursor → Option (BlockDraft × Cursor)
  | 0, d, c => some (d, c)
  | n + 1, d, c =>
    if c.column ≠ indent || c.rest.isEmpty then some (d, c)
    else
      let blank := (c.peek? 0).any isSpace
      let between :=
        if !literal && d.first = ['\n'] && !d.blankStart && !blank then
          if d.others.isEmpty then [' '] else []
        else d.first
      let line := c.rest.takeWhile (!isBreak ·)
      let (first, c) := (c.skip line.length).readBreak
      match readIndentation (some indent) (c.rest.length + 1) [] 0 c with
      | none => none
      | some (others, _, c) =>
        readBlockLines literal indent n
          ⟨d.text ++ between ++ d.others ++ line, first, others, blank⟩ c

/-- Reads an indented scalar; `outer` is the least column of its lines.  A given indentation counts
from the column of the block around it. -/
def readBlock (literal : Bool) (outer : Nat) (c : Cursor) : Option (String × Cursor) := do
  let (chomping, mark, c) ← readBlockMarks (c.skip 1)
  let c ← readBlockHeaderEnd c
  let given := mark.map fun n => outer - 1 + n
  let (breaks, deepest, c) ← readIndentation given (c.rest.length + 1) [] 0 c
  let indent := given.getD (max (max deepest outer) 1)
  let (d, c) ← readBlockLines literal indent (c.rest.length + 1) ⟨[], [], breaks, false⟩ c
  let ending := match chomping with
    | .strip => []
    | .clip => d.first
    | .keep => d.first ++ d.others
  some (String.ofList (d.text ++ ending), c)

end SuiteGate.Yaml
