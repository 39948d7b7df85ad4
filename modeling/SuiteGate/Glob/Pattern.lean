import SuiteGate.Shell.Pattern
/-!
# Patterns of file names

Patterns as the search for files reads them (`Glob.read?`).  They are made of the same parts as
the shell's and match in the same way, but what the shell takes as it stands is no pattern here: a
bracket that is not closed, and a doubled star.  `Glob.escape` makes the pattern of a text.
-/

namespace SuiteGate.Glob

open Shell (Pattern)

/-- Whether a character has a meaning of its own in a pattern. -/
def isSpecial (c : Char) : Bool :=
  c = '*' || c = '?' || c = '[' || c = ']'

/-- The pattern of a text: characters that have a meaning of their own are put in brackets. -/
def escape (cs : List Char) : List Char :=
  cs.flatMap fun c => if isSpecial c then ['[', c, ']'] else [c]

/-- The ranges that the characters between two brackets make. -/
def rangesOf : List Char → List (Char × Char)
  | a :: '-' :: b :: rest => (a, b) :: rangesOf rest
  | a :: rest => (a, a) :: rangesOf rest
  | [] => []

/-- Where the reader of a pattern stands. -/
inductive Reading where
  /-- Outside of all brackets. -/
  | outside
  /-- Behind the bracket that opens a set. -/
  | opened
  /-- Inside a set, with the characters of it that were read. -/
  | inside (inverted : Bool) (members : List Char)

/-- Reads a pattern on.  What comes first in a set belongs to it, even a closing bracket. -/
def readFrom : Reading → List Char → Option Pattern
  | .outside, [] => some []
  | _, [] => none
  | .outside, c :: cs =>
    if c = '[' then readFrom .opened cs
    else if c = '*' then
      if cs.head? = some '*' then none else (readFrom .outside cs).map (.anyText :: ·)
    else if c = '?' then (readFrom .outside cs).map (.any :: ·)
    else (readFrom .outside cs).map (.char c :: ·)
  | .opened, c :: cs => readFrom (if c = '!' then .inside true [] else .inside false [c]) cs
  | .inside inverted members, c :: cs =>
    if c = ']' && !members.isEmpty then
      (readFrom .outside cs).map (.set inverted (rangesOf members) :: ·)
    else readFrom (.inside inverted (members ++ [c])) cs

/-- The pattern that a text is, if it is one. -/
def read? (cs : List Char) : Option Pattern :=
  readFrom .outside cs

/-- The text that a pattern stands for, if it has no parts but characters. -/
def plainText? : Pattern → Option (List Char)
  | [] => some []
  | .char c :: rest => (plainText? rest).map (c :: ·)
  | _ :: _ => none

end SuiteGate.Glob
