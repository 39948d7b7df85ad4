import SuiteGate.Word64
/-!
# Configuration documents

What a configuration file says, before its meaning is known (`Document`).  A scalar keeps its text
and whether it may be read as a number or a truth value, too; the readers `text?`, `bool?`,
`count?`, `list?` take a document for what it is asked to be.
-/

namespace SuiteGate

/-- What a part of a configuration file says. -/
inductive Document where
  /-- A text; a bare one may be read as a number or a truth value, too. -/
  | scalar (text : String) (asNumber asBool : Bool)
  | number (n : Int)
  | bool (b : Bool)
  /-- A value that no setting can have, such as a date. -/
  | other
  /-- A list; if it is strict, whoever reads it has to use all of it. -/
  | list (items : List Document) (strict : Bool)
  /-- Members with their names; a member without one has something else instead. -/
  | table (members : List (Option String × Document))
deriving Inhabited

namespace Document

/-- A text that is nothing else. -/
def ofText (s : String) : Document :=
  .scalar s false false

/-- Whether a document is left empty. -/
def isBlank : Document → Bool
  | scalar s asNumber asBool => s.isEmpty && asNumber && asBool
  | _ => false

/-- The text that a document is. -/
def text? : Document → Option String
  | scalar s _ _ => some s
  | _ => none

/-- The spellings of truth values. -/
def boolSpellings : List (String × Bool) :=
  [("true", true), ("True", true), ("TRUE", true), ("false", false), ("False", false),
   ("FALSE", false)]

/-- The truth value that a document is. -/
def bool? : Document → Option Bool
  | scalar s _ true => boolSpellings.lookup s
  | bool b => some b
  | _ => none

/-- The value of a digit, letters standing for ten and more. -/
def digitValue (c : Char) : Nat :=
  if c.isDigit then c.toNat - '0'.toNat
  else if c.isLower then c.toNat - 'a'.toNat + 10
  else if c.isUpper then c.toNat - 'A'.toNat + 10
  else 36

/-- The number with given digits in a base. -/
def ofDigits? (base : Nat) (digits : List Char) : Option Nat :=
  if digits.isEmpty || digits.any (fun c => base ≤ digitValue c) then none
  else some (digits.foldl (fun acc c => acc * base + digitValue c) 0)

/-- The number that a bare text spells: decimal without a leading zero, or in the base that its
start says. -/
def spelledNumber? (s : String) : Option Nat :=
  let cs := match s.toList with
    | '+' :: rest => rest
    | cs => cs
  let digits (base : Nat) (rest : List Char) : Option Nat :=
    ofDigits? base (match rest with
      | '+' :: _ => []
      | rest => rest)
  match cs with
  | '0' :: 'x' :: rest => digits 16 rest
  | '0' :: 'o' :: rest => digits 8 rest
  | '0' :: 'b' :: rest => digits 2 rest
  | ['0'] => some 0
  | '0' :: _ => none
  | cs => ofDigits? 10 cs

/-- The greatest count. -/
def maxCount : Nat := Word64.count - 1

/-- The count that a document is. -/
def count? (d : Document) : Option Nat :=
  let found := match d with
    | scalar s true _ => spelledNumber? s
    | number n => if 0 ≤ n then some n.toNat else none
    | _ => none
  found.filter (· ≤ maxCount)

/-- The list that a document is. -/
def list? : Document → Option (List Document)
  | list items _ => some items
  | d => if d.isBlank then some [] else none

/-- The list of texts that a document is. -/
def texts? (d : Document) : Option (List String) := do
  (← d.list?).mapM text?

/-- The named texts that a document is. -/
def namedTexts? : Document → Option (List (String × String))
  | table members => members.mapM fun m => do some (← m.1, ← m.2.text?)
  | d => if d.isBlank then some [] else none

end Document

end SuiteGate
