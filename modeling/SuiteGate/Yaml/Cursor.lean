/-!
# Places in a YAML text

A place in a text, with its line and column (`Yaml.Cursor`), and the characters that YAML tells
apart: blanks, and line breaks of five kinds.
-/

namespace SuiteGate.Yaml

/-- A place in a text: what follows it, and where it is. -/
structure Cursor where
  rest : List Char
  line : Nat
  column : Nat
  index : Nat
deriving Inhabited

/-- Whether a character is a blank. -/
def isSpace (c : Char) : Bool :=
  c = ' ' || c = '\t'

/-- Whether a character ends a line. -/
def isBreak (c : Char) : Bool :=
  c = '\n' || c = '\r' || c = '\x85' || c = '\u2028' || c = '\u2029'

/-- Whether a character can stand in a name. -/
def isNameChar (c : Char) : Bool :=
  c.isAlphanum || c = '-' || c = '_'

/-- Whether a text is over, or starts with a line break. -/
def atBreakOrEnd : List Char → Bool
  | [] => true
  | c :: _ => isBreak c

/-- Whether a text is over, or starts with a blank or a line break. -/
def atGap : List Char → Bool
  | [] => true
  | c :: _ => isSpace c || isBreak c

/-- Whether a character can stand in a document at all. -/
def isAllowed (c : Char) : Bool :=
  let n := c.toNat
  n = 0x09 || n = 0x0A || n = 0x0D || (0x20 ≤ n && n ≤ 0x7E) || n = 0x85 || (0xA0 ≤ n && n ≤ 0xD7FF)
    || (0xE000 ≤ n && n ≤ 0xFFFD) || 0x10000 ≤ n

namespace Cursor

/-- The start of a text. -/
def start (cs : List Char) : Cursor :=
  ⟨cs, 0, 0, 0⟩

/-- The place so many characters later in the same line. -/
def skip (c : Cursor) (n : Nat) : Cursor :=
  { c with rest := c.rest.drop n, column := c.column + n, index := c.index + n }

/-- The line break at a place as it counts in a text, and the place behind it. -/
def readBreak (c : Cursor) : List Char × Cursor :=
  let past (n : Nat) : Cursor :=
    ⟨c.rest.drop n, c.line + 1, 0, c.index + n⟩
  match c.rest with
  | '\r' :: '\n' :: _ => (['\n'], past 2)
  | '\r' :: _ => (['\n'], past 1)
  | '\n' :: _ => (['\n'], past 1)
  | '\x85' :: _ => (['\n'], past 1)
  | b :: _ => if isBreak b then ([b], past 1) else ([], c)
  | [] => ([], c)

/-- The place behind blanks. -/
def skipSpaces (c : Cursor) : Cursor :=
  c.skip (c.rest.takeWhile isSpace).length

/-- The place at the end of the line. -/
def skipToBreak (c : Cursor) : Cursor :=
  c.skip (c.rest.takeWhile (!isBreak ·)).length

/-- The character so many places later. -/
def peek? (c : Cursor) (n : Nat) : Option Char :=
  c.rest[n]?

/-- Whether the place is at the given characters. -/
def isAt (c : Cursor) (word : List Char) : Bool :=
  word.isPrefixOf c.rest

/-- Whether a blank, a line break or the end comes so many places later. -/
def gapAt (c : Cursor) (n : Nat) : Bool :=
  atGap (c.rest.drop n)

/-- Whether the place is at a mark between documents. -/
def isAtDocumentMark (c : Cursor) : Bool :=
  c.column = 0 && (c.isAt ['-', '-', '-'] || c.isAt ['.', '.', '.']) && c.gapAt 3

end Cursor

end SuiteGate.Yaml
