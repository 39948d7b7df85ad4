/-!
# Patterns of the shell

Patterns with `*`, `?` and sets of characters in brackets (`Shell.Pattern`).  `Pattern.matches?`
asks whether one matches a whole text.
-/

namespace SuiteGate.Shell

/-- A part of a pattern. -/
inductive PatternItem where
  | char (c : Char)
  | any
  | anyText
  /-- A set of ranges, or all characters but those. -/
  | set (inverted : Bool) (ranges : List (Char × Char))
deriving DecidableEq, Repr

/-- A pattern. -/
abbrev Pattern := List PatternItem

/-- Whether a character is one that a part of a pattern stands for. -/
def PatternItem.covers (item : PatternItem) (c : Char) : Bool :=
  match item with
  | char d => c = d
  | any => true
  | anyText => true
  | set inverted ranges => (ranges.any fun r => r.1 ≤ c && c ≤ r.2) != inverted

/-- The ranges of a set, up to the closing bracket.  A bracket at its start does not close it. -/
def readRanges : Nat → List (Char × Bool) → Option (List (Char × Char) × List (Char × Bool))
  | 0, _ => none
  | n + 1, cs =>
    match cs with
    | [] => none
    | (a, _) :: ('-', false) :: (b, plain) :: rest =>
      if b = ']' && !plain then (readTail n (('-', false) :: (b, plain) :: rest)).map fun r =>
        ((a, a) :: r.1, r.2)
      else (readTail n rest).map fun r => ((a, b) :: r.1, r.2)
    | (a, _) :: rest => (readTail n rest).map fun r => ((a, a) :: r.1, r.2)
where
  /-- The ranges behind the first one. -/
  readTail : Nat → List (Char × Bool) → Option (List (Char × Char) × List (Char × Bool))
    | 0, _ => none
    | n + 1, cs =>
      match cs with
      | [] => none
      | (']', false) :: rest => some ([], rest)
      | (a, _) :: ('-', false) :: (b, plain) :: rest =>
        if b = ']' && !plain then (readTail n (('-', false) :: (b, plain) :: rest)).map fun r =>
          ((a, a) :: r.1, r.2)
        else (readTail n rest).map fun r => ((a, b) :: r.1, r.2)
      | (a, _) :: rest => (readTail n rest).map fun r => ((a, a) :: r.1, r.2)

namespace Pattern

/-- The pattern that characters make; those with a mark stand for themselves.  The number bounds
the characters. -/
def ofCharsFrom : Nat → List (Char × Bool) → Pattern
  | 0, _ => []
  | _, [] => []
  | n + 1, (c, plain) :: rest =>
    if plain then .char c :: ofCharsFrom n rest
    else if c = '*' then .anyText :: ofCharsFrom n rest
    else if c = '?' then .any :: ofCharsFrom n rest
    else if c = '[' then
      let inverted := rest.head?.any fun d => !d.2 && (d.1 = '!' || d.1 = '^')
      match readRanges (rest.length + 1) (if inverted then rest.drop 1 else rest) with
      | some (ranges, rest) => .set inverted ranges :: ofCharsFrom n rest
      | none => .char c :: ofCharsFrom n rest
    else .char c :: ofCharsFrom n rest

/-- The pattern that characters make; those with a mark stand for themselves. -/
def ofChars (cs : List (Char × Bool)) : Pattern :=
  ofCharsFrom (cs.length + 1) cs

/-- Whether a pattern matches a whole text. -/
def matches? : Pattern → List Char → Bool
  | [], cs => cs.isEmpty
  | .anyText :: p, [] => matches? p []
  | .anyText :: p, c :: cs => matches? p (c :: cs) || matches? (.anyText :: p) cs
  | _ :: _, [] => false
  | item :: p, c :: cs => item.covers c && matches? p cs
termination_by p cs => (p.length + cs.length)

/-- Whether a pattern says more than a plain text. -/
def isProper (p : Pattern) : Bool :=
  p.any fun item => match item with
    | .char _ => false
    | _ => true

end Pattern

/-- The text without the start that a pattern matches, the shortest or the longest one. -/
def dropStart (p : Pattern) (longest : Bool) (cs : List Char) : List Char :=
  let sizes := (List.range (cs.length + 1)).filter fun n => p.matches? (cs.take n)
  match if longest then sizes.getLast? else sizes.head? with
  | some n => cs.drop n
  | none => cs

/-- The text without the end that a pattern matches, the shortest or the longest one. -/
def dropEnd (p : Pattern) (longest : Bool) (cs : List Char) : List Char :=
  let sizes := (List.range (cs.length + 1)).filter fun n => p.matches? (cs.drop n)
  match if longest then sizes.head? else sizes.getLast? with
  | some n => cs.take n
  | none => cs

end SuiteGate.Shell
