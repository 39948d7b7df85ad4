import SuiteGate.Json.Value
import SuiteGate.Word64
/-!
# Reading JSON

`Json.parse?` reads one document with nothing but white space around it.  Documents may be nested
to any depth; what a reader makes of deep nesting and of inexact values is left to it.
-/

namespace SuiteGate.Json

/-- The rest of a text after white space. -/
def skipBlanks : List Char → List Char :=
  List.dropWhile fun c => c = ' ' || c = '\t' || c = '\n' || c = '\r'

/-- The value of a hexadecimal digit. -/
def hexValue? (c : Char) : Option Nat :=
  if c.isDigit then some (c.toNat - '0'.toNat)
  else if 'a' ≤ c && c ≤ 'f' then some (c.toNat - 'a'.toNat + 10)
  else if 'A' ≤ c && c ≤ 'F' then some (c.toNat - 'A'.toNat + 10)
  else none

/-- The number with the given hexadecimal digits. -/
def hexNumber? (digits : List Char) : Option Nat :=
  digits.foldlM (fun acc c => (hexValue? c).map (acc * 16 + ·)) 0

/-- The character that an escape of one letter stands for. -/
def escaped? (c : Char) : Option Char :=
  if c = '"' then some '"'
  else if c = '\\' then some '\\'
  else if c = '/' then some '/'
  else if c = 'b' then some '\x08'
  else if c = 'f' then some '\x0c'
  else if c = 'n' then some '\n'
  else if c = 'r' then some '\r'
  else if c = 't' then some '\t'
  else none

/-- Whether a number is the first half of a surrogate pair. -/
def isHigh (n : Nat) : Bool := 0xD800 ≤ n && n < 0xDC00

/-- Whether a number is the second half of a surrogate pair. -/
def isLow (n : Nat) : Bool := 0xDC00 ≤ n && n < 0xE000

/-- Reads a text up to its closing quote.  `high` is a first half of a surrogate pair that was just
read, `exact` says whether all escapes before it were characters, and `acc` holds the characters
read, the last one first. -/
def readText (high : Option Nat) (exact : Bool) (acc : List Char) :
    List Char → Option (JsonText × List Char)
  | [] => none
  | '"' :: rest => some (⟨String.ofList acc.reverse, exact && high.isNone⟩, rest)
  | '\\' :: 'u' :: a :: b :: c :: d :: rest =>
    match hexNumber? [a, b, c, d] with
    | none => none
    | some n =>
      match high with
      | some h =>
        if isLow n then
          readText none exact (Char.ofNat (0x10000 + (h - 0xD800) * 0x400 + (n - 0xDC00)) :: acc)
            rest
        else if isHigh n then readText (some n) false acc rest
        else readText none false acc rest
      | none =>
        if isHigh n then readText (some n) exact acc rest
        else if isLow n then readText none false acc rest
        else readText none exact (Char.ofNat n :: acc) rest
  | '\\' :: e :: rest =>
    match escaped? e with
    | none => none
    | some c => readText none (exact && high.isNone) (c :: acc) rest
  | c :: rest =>
    if c.toNat < 0x20 then none else readText none (exact && high.isNone) (c :: acc) rest

/-- The number with the given decimal digits. -/
def decimal (digits : List Char) : Nat :=
  digits.foldl (fun acc c => acc * 10 + (c.toNat - '0'.toNat)) 0

/-- The smallest number that is rounded to infinity. -/
def infinityBound : Nat := Nat.pow 2 1024 - Nat.pow 2 970

/-- Whether m · 10^e is less than the smallest number that is rounded to infinity.  Where the number
of digits decides that, no power is computed. -/
def decimalInRange (m : Nat) (e : Int) : Bool :=
  let size := (Nat.toDigits 10 m).length + e
  if m = 0 || size ≤ 300 then true
  else if 310 < size then false
  else if e < 0 then m < infinityBound * Nat.pow 10 e.natAbs
  else m * Nat.pow 10 e.toNat < infinityBound

/-- Reads one digit or more. -/
def readDigits (cs : List Char) : Option (List Char × List Char) :=
  let digits := cs.takeWhile Char.isDigit
  if digits.isEmpty then none else some (digits, cs.dropWhile Char.isDigit)

/-- Reads the digits before the point; a zero stands alone. -/
def readWhole : List Char → Option (List Char × List Char)
  | '0' :: rest => some (['0'], rest)
  | cs => readDigits cs

/-- Reads the point and the digits behind it, if there is a point. -/
def readFraction : List Char → Option (List Char × List Char)
  | '.' :: rest => readDigits rest
  | cs => some ([], cs)

/-- Reads the exponent, if there is one. -/
def readExponent : List Char → Option (Option Int × List Char)
  | [] => some (none, [])
  | c :: cs =>
    if c = 'e' || c = 'E' then
      match cs with
      | '-' :: rest => (readDigits rest).map fun r => (some (-(decimal r.1 : Int)), r.2)
      | '+' :: rest => (readDigits rest).map fun r => (some (decimal r.1 : Int), r.2)
      | rest => (readDigits rest).map fun r => (some (decimal r.1 : Int), r.2)
    else some (none, c :: cs)

/-- Reads a number without its sign. -/
def readUnsigned (negative : Bool) (cs : List Char) : Option (Json × List Char) := do
  let (whole, rest) ← readWhole cs
  let (fraction, rest) ← readFraction rest
  let (exponent, rest) ← readExponent rest
  let n := decimal whole
  let signed : Int := if negative then -n else n
  if fraction.isEmpty && exponent.isNone && !(negative && n = 0) &&
      (Word64.fitsSigned signed || Word64.fitsUnsigned signed) then
    some (.int signed, rest)
  else
    let spelling := String.ofList (cs.take (cs.length - rest.length))
    let spelling := if negative then "-" ++ spelling else spelling
    let inRange := decimalInRange (decimal (whole ++ fraction))
      (exponent.getD 0 - fraction.length)
    some (.real spelling inRange, rest)

/-- Reads a number. -/
def readNumber : List Char → Option (Json × List Char)
  | '-' :: cs => readUnsigned true cs
  | cs => readUnsigned false cs

/-- Reads a word that stands for a value. -/
def readWord (word : String) (value : Json) (cs : List Char) : Option (Json × List Char) :=
  (Text.dropPrefix? word.toList cs).map fun rest => (value, rest)

mutual

/-- Reads a value.  The number bounds the steps. -/
def readValue : Nat → List Char → Option (Json × List Char)
  | 0, _ => none
  | n + 1, cs =>
    match skipBlanks cs with
    | [] => none
    | '"' :: rest => (readText none true [] rest).map fun r => (.str r.1, r.2)
    | '[' :: rest =>
      match skipBlanks rest with
      | ']' :: rest => some (.arr [], rest)
      | rest => readItems n [] rest
    | '\x7b' :: rest =>
      match skipBlanks rest with
      | '\x7d' :: rest => some (.obj [], rest)
      | rest => readMembers n [] rest
    | 'n' :: rest => readWord "ull" .null rest
    | 't' :: rest => readWord "rue" (.bool true) rest
    | 'f' :: rest => readWord "alse" (.bool false) rest
    | rest => readNumber rest

/-- Reads the items of an array from the first on. -/
def readItems : Nat → List Json → List Char → Option (Json × List Char)
  | 0, _, _ => none
  | n + 1, acc, cs => do
    let (item, rest) ← readValue n cs
    match skipBlanks rest with
    | ',' :: rest => readItems n (item :: acc) rest
    | ']' :: rest => some (.arr (item :: acc).reverse, rest)
    | _ => none

/-- Reads the members of an object from the first on. -/
def readMembers : Nat → List (JsonText × Json) → List Char → Option (Json × List Char)
  | 0, _, _ => none
  | n + 1, acc, cs =>
    match skipBlanks cs with
    | '"' :: rest => do
      let (name, rest) ← readText none true [] rest
      match skipBlanks rest with
      | ':' :: rest =>
        let (value, rest) ← readValue n rest
        match skipBlanks rest with
        | ',' :: rest => readMembers n ((name, value) :: acc) rest
        | '\x7d' :: rest => some (.obj ((name, value) :: acc).reverse, rest)
        | _ => none
      | _ => none
    | _ => none

end

/-- The document that a text is. -/
def parse? (s : String) : Option Json := do
  let cs := s.toList
  let (value, rest) ← readValue (2 * cs.length + 2) cs
  if (skipBlanks rest).isEmpty then some value else none

end SuiteGate.Json
