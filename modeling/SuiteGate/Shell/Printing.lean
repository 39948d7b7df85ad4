import SuiteGate.Text.Lines
import SuiteGate.Word64
/-!
# Printing from the shell

What `echo` (`Shell.echo`) and `printf` (`Shell.printf`) write: bytes, because an escape can stand
for any byte.
-/

namespace SuiteGate.Shell

/-- The bytes of a text. -/
def bytesOf (cs : List Char) : List UInt8 :=
  (String.ofList cs).toUTF8.toList

/-- The bytes of a character. -/
def bytesOfChar (c : Char) : List UInt8 :=
  bytesOf [c]

/-- The byte that octal digits stand for. -/
def octal (ds : List Char) : UInt8 :=
  (ds.foldl (fun n d => n * 8 + (d.toNat - '0'.toNat)) 0).toUInt8

/-- Whether a character is an octal digit. -/
def isOctal (c : Char) : Bool :=
  '0' ≤ c && c ≤ '7'

/-- The byte that an escape of one letter stands for. -/
def escapedByte? (c : Char) : Option UInt8 :=
  [('\\', 92), ('a', 7), ('b', 8), ('e', 27), ('f', 12), ('n', 10), ('r', 13), ('t', 9),
   ('v', 11)].lookup c

/-- The bytes of what a backslash starts, and what follows it. -/
def readEscape (cs : List Char) : List UInt8 × List Char :=
  let digits := (cs.take 3).takeWhile isOctal
  if !digits.isEmpty then ([octal digits], cs.drop digits.length)
  else
    match cs with
    | [] => ([92], [])
    | c :: rest =>
      match escapedByte? c with
      | some b => ([b], rest)
      | none => ([92], cs)

/-- The bytes of a text with escapes, and whether one of them ends all output.  An octal number
has a zero before it.  The number bounds the characters. -/
def expandEscapes : Nat → List Char → List UInt8 × Bool
  | 0, _ => ([], false)
  | _, [] => ([], false)
  | n + 1, c :: rest =>
    if c ≠ '\\' then
      let (bs, ended) := expandEscapes n rest
      (bytesOfChar c ++ bs, ended)
    else
      match rest with
      | 'c' :: _ => ([], true)
      | '0' :: ds =>
        let digits := (ds.take 3).takeWhile isOctal
        let (bs, ended) := expandEscapes n (ds.drop digits.length)
        (octal digits :: bs, ended)
      | _ =>
        let (b, rest) := readEscape rest
        let (bs, ended) := expandEscapes n rest
        (b ++ bs, ended)

/-- What `echo` writes in the shell: escapes stand for what they mean. -/
def echo (args : List String) : List UInt8 :=
  let (newline, args) := match args with
    | "-n" :: rest => (false, rest)
    | args => (true, args)
  let text := (Text.join " " args).toList
  let (bs, ended) := expandEscapes (text.length + 1) text
  if ended || !newline then bs else bs ++ [10]

/-! ### Formats -/

/-- How a value is set into a format. -/
structure Conversion where
  flags : List Char
  width : Nat
  precision : Option Nat
  kind : Char

/-- A number in a base. -/
def digitsOf (base : Nat) (upper : Bool) (n : Nat) : List Char :=
  let ds := Nat.toDigits base n
  if upper then ds.map Char.toUpper else ds

/-- The bytes brought to the width of a conversion. -/
def Conversion.pad (c : Conversion) (zeros : Bool) (bs : List UInt8) : List UInt8 :=
  let missing := c.width - bs.length
  if c.flags.contains '-' then bs ++ List.replicate missing 32
  else if zeros && c.flags.contains '0' then
    match bs with
    | 45 :: rest => 45 :: List.replicate missing 48 ++ rest
    | bs => List.replicate missing 48 ++ bs
  else List.replicate missing 32 ++ bs

/-- The number that an argument spells, and whether it spells nothing else. -/
def argumentNumber (s : String) : Int × Bool :=
  match s.toList with
  | [] => (0, true)
  | '\'' :: c :: _ => (c.toNat, true)
  | '"' :: c :: _ => (c.toNat, true)
  | cs =>
    let (negative, ds) := match cs with
      | '-' :: ds => (true, ds)
      | '+' :: ds => (false, ds)
      | ds => (false, ds)
    let (base, ds) := match ds with
      | '0' :: 'x' :: ds => (16, ds)
      | '0' :: 'X' :: ds => (16, ds)
      | '0' :: d :: ds => (8, d :: ds)
      | ds => (10, ds)
    let value (c : Char) : Nat :=
      if c.isDigit then c.toNat - '0'.toNat
      else if 'a' ≤ c.toLower && c.toLower ≤ 'f' then c.toLower.toNat - 'a'.toNat + 10
      else 36
    let good := ds.takeWhile fun c => value c < base
    let n : Nat := good.foldl (fun n c => n * base + value c) 0
    ((if negative then - (n : Int) else n), good.length = ds.length && !ds.isEmpty)

/-- The bytes that a conversion makes of an argument, whether they end all output, and what is
wrong with the argument. -/
def convert (c : Conversion) (arg : String) : List UInt8 × Bool × Option String :=
  let limit (bs : List UInt8) : List UInt8 :=
    match c.precision with
    | some p => bs.take p
    | none => bs
  let number (show_ : Int → List Char) : List UInt8 × Bool × Option String :=
    let (n, good) := argumentNumber arg
    let fault := if good then none else
      some (arg ++ (if arg.toList.head?.any Char.isDigit then ": not completely converted"
        else ": expected numeric value"))
    let ds := show_ n
    let (sign, ds) := match ds with
      | '-' :: ds => (['-'], ds)
      | ds =>
        (if c.flags.contains '+' then ['+'] else if c.flags.contains ' ' then [' '] else [], ds)
    let ds := List.replicate ((c.precision.getD 1) - ds.length) '0' ++ ds
    (c.pad c.precision.isNone (bytesOf (sign ++ ds)), false, fault)
  let unsigned (n : Int) : Nat := (n.emod Word64.count).toNat
  match c.kind with
  | 's' => (c.pad false (limit arg.toUTF8.toList), false, none)
  | 'b' =>
    let (bs, ended) := expandEscapes (arg.length + 1) arg.toList
    (c.pad false (limit bs), ended, none)
  | 'c' => (c.pad false (if arg.isEmpty then [0] else arg.toUTF8.toList.take 1), false, none)
  | 'o' => number fun n =>
      (if c.flags.contains '#' then ['0'] else []) ++ digitsOf 8 false (unsigned n)
  | 'x' => number fun n =>
      (if c.flags.contains '#' then ['0', 'x'] else []) ++ digitsOf 16 false (unsigned n)
  | 'X' => number fun n =>
      (if c.flags.contains '#' then ['0', 'X'] else []) ++ digitsOf 16 true (unsigned n)
  | 'u' => number fun n => digitsOf 10 false (unsigned n)
  | _ => number fun n => (toString n).toList

/-- Reads a number in a format, which a star takes from the arguments. -/
def readCount (cs : List Char) (args : List String) : Option Nat × List Char × List String :=
  match cs with
  | '*' :: rest => (some (argumentNumber (args.headD "")).1.toNat, rest, args.drop 1)
  | cs =>
    let ds := cs.takeWhile Char.isDigit
    if ds.isEmpty then (none, cs, args)
    else (some (ds.foldl (fun n d => n * 10 + (d.toNat - '0'.toNat)) 0), cs.drop ds.length, args)

/-- What comes of a format: bytes, the arguments left, what was wrong, and whether all output
ends. -/
structure Printed where
  bytes : List UInt8
  args : List String
  faults : List String := []
  ended : Bool := false
  /-- Whether the format itself is at fault. -/
  broken : Bool := false

/-- Goes through a format once.  The number bounds its characters. -/
def formatOnce : Nat → List Char → List String → Printed
  | 0, _, args => { bytes := [], args }
  | _, [], args => { bytes := [], args }
  | n + 1, c :: rest, args =>
    let put (bs : List UInt8) (p : Printed) : Printed := { p with bytes := bs ++ p.bytes }
    if c = '\\' then
      let (bs, rest) := readEscape rest
      put bs (formatOnce n rest args)
    else if c ≠ '%' then put (bytesOfChar c) (formatOnce n rest args)
    else
      match rest with
      | '%' :: rest => put [37] (formatOnce n rest args)
      | _ =>
        let flags := rest.takeWhile ['#', '-', '+', ' ', '0'].contains
        let (width, rest, args) := readCount (rest.drop flags.length) args
        let (precision, rest, args) := match rest with
          | '.' :: rest =>
            let (p, rest, args) := readCount rest args
            (some (p.getD 0), rest, args)
          | rest => (none, rest, args)
        match rest with
        | [] =>
          { bytes := [], args, faults := ["%: missing format character"], ended := true,
            broken := true }
        | kind :: rest =>
          if "sbcdiouxX".toList.contains kind then
            let (bs, ended, fault) := convert ⟨flags, width.getD 0, precision, kind⟩ (args.headD "")
            if ended then
              { bytes := bs, args := args.drop 1, faults := fault.toList, ended := true }
            else
              let p := formatOnce n rest (args.drop 1)
              { put bs p with faults := fault.toList ++ p.faults }
          else
            { bytes := [], args, faults := ["%" ++ String.singleton kind ++ ": invalid directive"],
              ended := true, broken := true }

/-- Goes through a format as long as it takes arguments and there are more.  The number bounds the
rounds. -/
def formatAll (format : List Char) : Nat → List String → Printed
  | 0, args => { bytes := [], args }
  | n + 1, args =>
    let p := formatOnce (format.length + 1) format args
    if p.ended || p.args.isEmpty || p.args.length = args.length then p
    else
      let q := formatAll format n p.args
      { q with bytes := p.bytes ++ q.bytes, faults := p.faults ++ q.faults }

/-- What `printf` comes to: its status, what it writes, and what is wrong with its arguments. -/
def printf (args : List String) : Nat × List UInt8 × List String :=
  let formatted (format : String) (args : List String) : Nat × List UInt8 × List String :=
    let p := formatAll format.toList (args.length + 1) args
    (if p.broken then 2 else if p.faults.isEmpty then 0 else 1, p.bytes, p.faults)
  match args with
  | "--" :: format :: args => formatted format args
  | format :: args => formatted format args
  | [] => (2, [], ["usage: printf format [arg ...]"])

end SuiteGate.Shell
