import SuiteGate.Shell.Words
import SuiteGate.Word64
/-!
# Arithmetic of the shell

Terms over whole numbers of 64 bits (`Shell.evaluate`).  A name stands for the number that its
variable spells, and a term can give variables new values.
-/

namespace SuiteGate.Shell

/-- Why a term has no value. -/
inductive ArithmeticFault where
  | malformed
  /-- Something stands behind the term. -/
  | unfinished
  | divisionByZero
deriving DecidableEq, Repr

/-- The variables that a term sees. -/
abbrev Numbers := List (String × Int)

/-- Reading a term: what is left of it, and the variables. -/
abbrev Calculation (α : Type) := StateT (List Char × (String → Int) × Numbers)
  (Except ArithmeticFault) α

/-- A number brought into the range of 64 bits. -/
def wrap (n : Int) : Int :=
  Int.bmod n Word64.count

/-- The number that a truth value is. -/
def ofTruth (b : Bool) : Int :=
  if b then 1 else 0

/-- The operators between two terms, by how tightly they bind, and the longer of two that start
alike first. -/
def operatorLevels : List (List String) :=
  [["||"], ["&&"], ["|"], ["^"], ["&"], ["==", "!="], ["<=", ">=", "<", ">"], ["<<", ">>"],
   ["+", "-"], ["*", "/", "%"]]

/-- What an operator makes of two numbers. -/
def apply (op : String) (a b : Int) : Except ArithmeticFault Int :=
  match op with
  | "||" => .ok (ofTruth (a ≠ 0 || b ≠ 0))
  | "&&" => .ok (ofTruth (a ≠ 0 && b ≠ 0))
  | "|" => .ok ((BitVec.ofInt 64 a ||| BitVec.ofInt 64 b).toInt)
  | "^" => .ok ((BitVec.ofInt 64 a ^^^ BitVec.ofInt 64 b).toInt)
  | "&" => .ok ((BitVec.ofInt 64 a &&& BitVec.ofInt 64 b).toInt)
  | "==" => .ok (ofTruth (a = b))
  | "!=" => .ok (ofTruth (a ≠ b))
  | "<=" => .ok (ofTruth (a ≤ b))
  | ">=" => .ok (ofTruth (a ≥ b))
  | "<" => .ok (ofTruth (a < b))
  | ">" => .ok (ofTruth (a > b))
  | "<<" => .ok (wrap (a * Nat.pow 2 (b.emod 64).toNat))
  | ">>" => .ok (a.fdiv (Nat.pow 2 (b.emod 64).toNat))
  | "+" => .ok (wrap (a + b))
  | "-" => .ok (wrap (a - b))
  | "*" => .ok (wrap (a * b))
  | "/" => if b = 0 then .error .divisionByZero else .ok (wrap (a.tdiv b))
  | "%" => if b = 0 then .error .divisionByZero else .ok (a.tmod b)
  | _ => .error .malformed

/-- The value of a digit. -/
def digitOf (c : Char) : Nat :=
  if c.isDigit then c.toNat - '0'.toNat
  else if 'a' ≤ c && c ≤ 'z' then c.toNat - 'a'.toNat + 10
  else if 'A' ≤ c && c ≤ 'Z' then c.toNat - 'A'.toNat + 10
  else 36

/-- The number that digits spell in the base that their start says. -/
def spelled? (cs : List Char) : Option Int :=
  let number (base : Nat) (ds : List Char) : Option Int :=
    if ds.any fun d => base ≤ digitOf d then none
    else some (wrap (ds.foldl (fun (n : Int) d => n * base + digitOf d) 0))
  match cs with
  | '0' :: 'x' :: ds => number 16 ds
  | '0' :: 'X' :: ds => number 16 ds
  | '0' :: ds => number 8 ds
  | ds => number 10 ds

/-- The digits of a number at the start of a text: as many as are digits in the base that the start
says. -/
def numberAtStart (cs : List Char) : List Char :=
  let digits (base : Nat) (ds : List Char) : List Char := ds.takeWhile (digitOf · < base)
  match cs with
  | '0' :: x :: ds =>
    if (x = 'x' || x = 'X') && !(digits 16 ds).isEmpty then '0' :: x :: digits 16 ds
    else digits 8 cs
  | cs => digits 10 cs

/-- The number that the value of a variable spells. -/
def numberOf? (value : String) : Option Int :=
  let trimmed := (value.toList.dropWhile Char.isWhitespace).reverse.dropWhile Char.isWhitespace
  let cs := trimmed.reverse
  match cs with
  | [] => some 0
  | '-' :: ds => (spelled? ds).map (- ·)
  | '+' :: ds => spelled? ds
  | ds => spelled? ds

namespace Calculation

/-- Goes over blanks. -/
def blanks : Calculation Unit :=
  modify fun s => (s.1.dropWhile Char.isWhitespace, s.2)

/-- The value of a variable. -/
def lookup (name : String) : Calculation Int := do
  let s ← get
  return (s.2.2.lookup name).getD (s.2.1 name)

/-- Gives a variable a value. -/
def assign (name : String) (n : Int) : Calculation Int := do
  modify fun s => (s.1, s.2.1, (name, n) :: s.2.2)
  return n

/-- The operator of some that comes next; one that goes on to an assignment or to a longer operator
does not count. -/
def operator? (ops : List String) : Calculation (Option String) := do
  blanks
  let cs := (← get).1
  match ops.find? (·.toList.isPrefixOf cs) with
  | none => return none
  | some op =>
    let next := (cs.drop op.length).head?
    let longer :=
      (op = "|" && next = some '|') || (op = "&" && next = some '&') ||
        ((op = "<" || op = ">") && next = op.toList.head?) ||
        (next = some '=' && !(["==", "!=", "<=", ">=", "||", "&&"].contains op))
    if longer then return none
    else
      modify fun s => (s.1.drop op.length, s.2)
      return some op

/-- Goes over a character that has to come next. -/
def require (c : Char) : Calculation Unit := do
  blanks
  match (← get).1 with
  | d :: rest => if c = d then modify fun s => (rest, s.2) else throw .malformed
  | [] => throw .malformed

/-- The operators that go with an assignment. -/
def assignments : List String :=
  ["<<=", ">>=", "+=", "-=", "*=", "/=", "%=", "&=", "|=", "^="]

mutual

/-- Reads a term with assignments and choices in it. -/
def term : Nat → Calculation Int
  | 0 => throw .malformed
  | n + 1 => do
    blanks
    let cs := (← get).1
    let name := match cs with
      | c :: _ => if startsName c then cs.takeWhile isNameChar else []
      | [] => []
    let behind := (cs.drop name.length).dropWhile Char.isWhitespace
    let plain := behind.head? = some '=' && behind[1]? ≠ some '='
    let op := assignments.find? (·.toList.isPrefixOf behind)
    if name.isEmpty || !(plain || op.isSome) then choice n
    else
      let name := String.ofList name
      match op with
      | some op =>
        modify fun s => (behind.drop op.length, s.2)
        let b ← term n
        let a ← lookup name
        match apply (String.ofList op.toList.dropLast) a b with
        | .ok v => assign name v
        | .error f => throw f
      | none =>
        modify fun s => (behind.drop 1, s.2)
        assign name (← term n)

/-- Reads a choice between two terms. -/
def choice : Nat → Calculation Int
  | 0 => throw .malformed
  | n + 1 => do
    let test ← operation operatorLevels n
    blanks
    if (← get).1.head? = some '?' then
      modify fun s => (s.1.drop 1, s.2)
      let yes ← term n
      require ':'
      let no ← term n
      return if test ≠ 0 then yes else no
    else return test

/-- Reads operations, the operators of the first level binding least. -/
def operation (levels : List (List String)) : Nat → Calculation Int
  | 0 => throw .malformed
  | n + 1 => do
    match levels with
    | [] => unary n
    | ops :: tighter => operationFrom ops tighter n (← operation tighter n)

/-- Reads the operations behind a first number. -/
def operationFrom (ops : List String) (tighter : List (List String)) : Nat → Int → Calculation Int
  | 0, a => pure a
  | n + 1, a => do
    match ← operator? ops with
    | none => return a
    | some op =>
      let b ← operation tighter n
      match apply op a b with
      | .ok v => operationFrom ops tighter n v
      | .error f => throw f

/-- Reads signs and what they stand before. -/
def unary : Nat → Calculation Int
  | 0 => throw .malformed
  | n + 1 => do
    blanks
    match (← get).1 with
    | '-' :: rest =>
      modify fun s => (rest, s.2)
      return wrap (- (← unary n))
    | '+' :: rest =>
      modify fun s => (rest, s.2)
      unary n
    | '!' :: rest =>
      modify fun s => (rest, s.2)
      return ofTruth ((← unary n) = 0)
    | '~' :: rest =>
      modify fun s => (rest, s.2)
      return - (← unary n) - 1
    | '(' :: rest =>
      modify fun s => (rest, s.2)
      let v ← term n
      require ')'
      return v
    | c :: cs =>
      let word := if startsName c then (c :: cs).takeWhile isNameChar else numberAtStart (c :: cs)
      modify fun s => ((c :: cs).drop word.length, s.2)
      if word.isEmpty then throw .malformed
      else if startsName c then lookup (String.ofList word)
      else
        match spelled? word with
        | some v => return v
        | none => throw .malformed
    | [] => throw .malformed

end

end Calculation

/-- The value of a term, and the variables that it gives new values. -/
def evaluate (value : String → Int) (text : List Char) :
    Except ArithmeticFault (Int × Numbers) :=
  if text.all Char.isWhitespace then .ok (0, [])
  else do
    let (v, rest, _, numbers) ←
      (Calculation.term (20 * text.length + 40)).run (text, value, [])
    if rest.all Char.isWhitespace then .ok (v, numbers.reverse) else .error .unfinished

end SuiteGate.Shell
