import SuiteGate.Disk.Planting
import SuiteGate.Host.Session
import SuiteGate.Shell.Condition
import SuiteGate.Shell.Printing
/-!
# Utilities of the host

The utilities that scripts use to write, read and move text and files (`Host.utility?`).  Each takes
what it is started with to what it leaves.
-/

namespace SuiteGate.Host

/-- The bytes of a text. -/
def bytes (s : String) : List UInt8 :=
  s.toUTF8.toList

/-- A line as bytes. -/
def line (s : String) : List UInt8 :=
  bytes (s ++ "\n")

namespace Start

/-- The end of a program that wrote results and messages and read all input. -/
def finish (s : Start) (code : Nat) (results messages : List UInt8) : Finish :=
  ⟨s.disk, .code code, [],
    (if results.isEmpty then [] else [(out, results)]) ++
      if messages.isEmpty then [] else [(err, messages)]⟩

/-- The end of a program that succeeded. -/
def succeed (s : Start) (results : List UInt8) : Finish :=
  s.finish 0 results []

/-- The end of a program that failed with a message. -/
def failWith (s : Start) (message : String) : Finish :=
  s.finish 1 [] (line (s.name ++ ": " ++ message))

/-- The bytes of a file, of a device, or of the input. -/
def read (s : Start) (file : String) : Except IoError (List UInt8) :=
  if file = "-" || file = "/dev/stdin" then .ok s.input
  else if file = "/dev/null" then .ok []
  else (s.disk.readFile s.cwd ⟨file⟩).map (·.toList)

end Start

/-- A utility. -/
abbrev Utility := Start → Finish

/-- The text of an error of a utility. -/
def reason : IoError → String
  | .os e => e.text
  | e => e.message

/-- The options and the operands among arguments; `--` ends the options. -/
def splitOptions (args : List String) : List String × List String :=
  let isOption (a : String) : Bool := a.toList.head? = some '-' && a.length ≠ 1 && a ≠ "--"
  let options := args.takeWhile isOption
  match args.drop options.length with
  | "--" :: rest => (options, rest)
  | rest => (options, rest)

/-- Whether an option of one letter is among options. -/
def hasOption (options : List String) (letter : Char) : Bool :=
  options.any fun o => !Text.startsWith o "--" && o.toList.contains letter

/-- Goes through operands; the bytes of those that can be read are collected, with messages about
the others. -/
def Start.readAll (s : Start) (files : List String) : List (List UInt8) × List UInt8 :=
  files.foldl (fun acc file =>
    match s.read file with
    | .ok bs => (acc.1 ++ [bs], acc.2)
    | .error e => (acc.1, acc.2 ++ line (s.name ++ ": " ++ file ++ ": " ++ reason e))) ([], [])

/-! ### Text -/

/-- The texts of files one after the other. -/
def cat : Utility := fun s =>
  let (_, files) := splitOptions s.args
  let (texts, messages) := s.readAll (if files.isEmpty then ["-"] else files)
  s.finish (if messages.isEmpty then 0 else 1) texts.flatten messages

/-- The lines of bytes, each with its end. -/
def byteLines : List UInt8 → List (List UInt8)
  | [] => []
  | b :: bs =>
    if b = 10 then [b] :: byteLines bs
    else
      match byteLines bs with
      | [] => [[b]]
      | l :: ls => (b :: l) :: ls

/-- A number in an argument. -/
def count? (s : String) : Option Nat :=
  s.toNat?

/-- What a utility for a part of a text is asked for: bytes or lines, and how many. -/
def partWanted : List String → Option (Bool × Nat × List String)
  | "-c" :: n :: rest => (count? n).map (true, ·, rest)
  | "-n" :: n :: rest => (count? n).map (false, ·, rest)
  | a :: rest =>
    match a.toList with
    | '-' :: 'c' :: n => (count? (String.ofList n)).map (true, ·, rest)
    | '-' :: 'n' :: n => (count? (String.ofList n)).map (false, ·, rest)
    | '-' :: d :: n =>
      if d.isDigit then (count? (String.ofList (d :: n))).map (false, ·, rest) else none
    | _ => some (false, 10, a :: rest)
  | [] => some (false, 10, [])

/-- The start of a text.  An endless device has as many bytes as wanted. -/
def head : Utility := fun s =>
  match partWanted s.args with
  | none => s.failWith "invalid option"
  | some (true, n, ["/dev/zero"]) => s.succeed (List.replicate n 0)
  | some (inBytes, n, files) =>
    let (texts, messages) := s.readAll (if files.isEmpty then ["-"] else files)
    let start (bs : List UInt8) : List UInt8 :=
      if inBytes then bs.take n else ((byteLines bs).take n).flatten
    s.finish (if messages.isEmpty then 0 else 1) (texts.flatMap start) messages

/-- The length of what a utility that never ends writes before the other end of its pipe counts as
closed. -/
def endlessLength : Nat := 262144

/-- A line over and over. -/
def yes : Utility := fun s =>
  let text := line (if s.args.isEmpty then "y" else Text.join " " s.args)
  s.succeed (List.replicate (endlessLength / text.length + 1) text).flatten

/-- The lines of texts, the last one first. -/
def tac : Utility := fun s =>
  let (texts, messages) := s.readAll (if s.args.isEmpty then ["-"] else s.args)
  s.finish (if messages.isEmpty then 0 else 1)
    (texts.flatMap fun bs => (byteLines bs).reverse.flatten) messages

/-- The end of a text. -/
def tail : Utility := fun s =>
  match partWanted s.args with
  | none => s.failWith "invalid option"
  | some (inBytes, n, files) =>
    let (texts, messages) := s.readAll (if files.isEmpty then ["-"] else files)
    let last (bs : List UInt8) : List UInt8 :=
      if inBytes then bs.drop (bs.length - n)
      else
        let ls := byteLines bs
        (ls.drop (ls.length - n)).flatten
    s.finish (if messages.isEmpty then 0 else 1) (texts.flatMap last) messages

/-- The bytes of a class with a name. -/
def byteClass (name : List Char) : List UInt8 :=
  let ofRange (a b : Char) : List UInt8 :=
    (List.range (b.toNat - a.toNat + 1)).map fun n => (a.toNat + n).toUInt8
  match String.ofList name with
  | "upper" => ofRange 'A' 'Z'
  | "lower" => ofRange 'a' 'z'
  | "digit" => ofRange '0' '9'
  | "alpha" => ofRange 'A' 'Z' ++ ofRange 'a' 'z'
  | "alnum" => ofRange '0' '9' ++ ofRange 'A' 'Z' ++ ofRange 'a' 'z'
  | "space" => [9, 10, 11, 12, 13, 32]
  | "blank" => [9, 32]
  | _ => []

/-- The bytes of a set: single ones, escapes, ranges and classes.  The number bounds them. -/
def byteSet : Nat → List Char → List UInt8
  | 0, _ => []
  | _, [] => []
  | n + 1, '[' :: ':' :: rest =>
    let name := rest.takeWhile Char.isAlpha
    byteClass name ++ byteSet n (rest.drop (name.length + 2))
  | n + 1, '\\' :: rest =>
    let (bs, rest) := Shell.readEscape rest
    bs ++ byteSet n rest
  | n + 1, a :: '-' :: b :: rest =>
    (List.range (b.toNat + 1 - a.toNat)).map (fun k => (a.toNat + k).toUInt8) ++ byteSet n rest
  | n + 1, c :: rest => bytes (String.singleton c) ++ byteSet n rest

/-- The bytes without repetitions of those in a set. -/
def squeeze (set : List UInt8) : List UInt8 → List UInt8
  | a :: b :: rest =>
    if a = b && set.contains a then squeeze set (b :: rest) else a :: squeeze set (b :: rest)
  | bs => bs

/-- Exchanges or drops bytes. -/
def tr : Utility := fun s =>
  let (options, operands) := splitOptions s.args
  let sets := operands.map fun o => byteSet (o.length + 1) o.toList
  let first := sets.headD []
  let inFirst (b : UInt8) : Bool :=
    first.contains b != (hasOption options 'c' || hasOption options 'C')
  let second := sets[1]?.getD []
  let exchange (b : UInt8) : UInt8 :=
    if !inFirst b then b
    else
      match first.idxOf? b with
      | some i => (second[i]?).getD (second.getLastD b)
      | none => second.getLastD b
  if sets.isEmpty then s.failWith "missing operand"
  else if hasOption options 'd' then
    let kept := s.input.filter (!inFirst ·)
    s.succeed (if hasOption options 's' then squeeze second kept else kept)
  else if hasOption options 's' then
    if second.isEmpty then s.succeed (squeeze first s.input)
    else s.succeed (squeeze second (s.input.map exchange))
  else s.succeed (s.input.map exchange)

/-- The number of words in bytes. -/
def wordCount (bs : List UInt8) : Nat :=
  let isGap (b : UInt8) : Bool := [9, 10, 11, 12, 13, 32].contains b
  (bs.foldl (fun (acc : Nat × Bool) b =>
    (if !isGap b && acc.2 then acc.1 + 1 else acc.1, isGap b)) (0, true)).1

/-- A number with blanks before it. -/
def rightAligned (width n : Nat) : String :=
  let ds := toString n
  String.ofList (List.replicate (width - ds.length) ' ') ++ ds

/-- Counts lines, words and bytes; a character counts as its bytes. -/
def wc : Utility := fun s =>
  let (options, files) := splitOptions s.args
  let wanted (letter : Char) : Bool :=
    (options.isEmpty && letter ≠ 'm') || hasOption options letter
  let counts (bs : List UInt8) : List Nat :=
    (if wanted 'l' then [(bs.filter (· = 10)).length] else []) ++
      (if wanted 'w' then [wordCount bs] else []) ++
      (if wanted 'm' then [bs.length] else []) ++
      if wanted 'c' then [bs.length] else []
  let row (width : Nat) (bs : List UInt8) (name : String) : List UInt8 :=
    line (Text.join " " ((counts bs).map (rightAligned width)) ++ name)
  match files with
  | [] => s.succeed (row (if (counts []).length = 1 then 1 else 7) s.input "")
  | files =>
    let (texts, messages) := s.readAll files
    let all := texts.flatten
    let width := if texts.length = 1 && (counts []).length = 1 then 1
      else (toString all.length).length
    let named := files.filter fun f => (s.read f).isOk
    let rows := (texts.zip named).flatMap fun p => row width p.1 (" " ++ p.2)
    s.finish (if messages.isEmpty then 0 else 1)
      (rows ++ if files.length = 1 then [] else row width all " total") messages

/-- Sorts lines. -/
def sort : Utility := fun s =>
  let (options, files) := splitOptions s.args
  let (texts, messages) := s.readAll (if files.isEmpty then ["-"] else files)
  let key (l : List UInt8) : List UInt8 := l.filter (· ≠ 10)
  let number (l : List UInt8) : Int :=
    (Shell.argumentNumber (Text.decodeLossy ⟨(key l).toArray⟩).trimAscii.toString).1
  let le (a b : List UInt8) : Bool :=
    if hasOption options 'n' then
      number a < number b || (number a = number b && key a ≤ key b)
    else key a ≤ key b
  let sorted := ((texts.flatMap byteLines).map fun l => key l ++ [10]).mergeSort le
  let sorted := if hasOption options 'r' then sorted.reverse else sorted
  s.finish (if messages.isEmpty then 0 else 2)
    (if hasOption options 'u' then sorted.eraseReps else sorted).flatten messages

/-- The whole numbers from one to another. -/
def seq : Utility := fun s =>
  let run (first step last : Int) : Finish :=
    let n := if step = 0 then 0 else ((last - first).fdiv step + 1).toNat
    s.succeed ((List.range n).flatMap fun (i : Nat) => line (toString (first + step * (i : Int))))
  match s.args.map String.toInt? with
  | [some b] => run 1 1 b
  | [some a, some b] => run a 1 b
  | [some a, some d, some b] => run a d b
  | _ => s.failWith "missing operand"

/-! ### Printing -/

/-- Writes its arguments as they are; options can ask for escapes and for no end of line. -/
def echo : Utility := fun s =>
  let isOption (a : String) : Bool :=
    match a.toList with
    | '-' :: c :: cs => (c :: cs).all ['n', 'e', 'E'].contains
    | _ => false
  let options := s.args.takeWhile isOption
  let args := s.args.drop options.length
  let text := Text.join " " args
  let (bs, ended) :=
    if hasOption options 'e' then Shell.expandEscapes (text.length + 1) text.toList
    else (bytes text, false)
  s.succeed (if ended || hasOption options 'n' then bs else bs ++ [10])

/-- Writes its arguments in a format. -/
def printf : Utility := fun s =>
  let (code, bs, faults) := Shell.printf s.args
  s.finish code bs (faults.flatMap fun f => line (s.name ++ ": " ++ f))

/-- Writes the environment, or the values of some variables. -/
def printenv : Utility := fun s =>
  if s.args.isEmpty then
    s.succeed (s.environment.toList.flatMap fun p => line (p.1 ++ "=" ++ p.2))
  else
    let values := s.args.map fun k => s.environment[k]?
    s.finish (if values.all Option.isSome then 0 else 1)
      (values.flatMap fun v => (v.map line).getD []) []

/-- Writes the current directory. -/
def pwd : Utility := fun s =>
  s.succeed (line (Path.ofNames s.cwd).text)

/-- The last part of a path, without an ending. -/
def basename : Utility := fun s =>
  match s.args with
  | [] => s.failWith "missing operand"
  | p :: rest =>
    let cs := p.toList.reverse.dropWhile (· = '/')
    let name := (cs.takeWhile (· ≠ '/')).reverse
    let ending := (rest.headD "").toList
    let name := if !ending.isEmpty && name ≠ ending && ending.isSuffixOf name then
      name.take (name.length - ending.length) else name
    s.succeed (line (if name.isEmpty && !p.isEmpty then "/" else String.ofList name))

/-- A path without its last part. -/
def dirname : Utility := fun s =>
  match s.args with
  | [] => s.failWith "missing operand"
  | p :: _ =>
    let cs := (p.toList.reverse.dropWhile (· = '/')).dropWhile (· ≠ '/')
    let dir := (cs.dropWhile (· = '/')).reverse
    s.succeed (line (if !dir.isEmpty then String.ofList dir else if cs.isEmpty &&
      p.toList.head? ≠ some '/' then "." else "/"))

/-! ### Files -/

/-- Changes the disk once for each operand, and goes on behind those for which that fails. -/
def Start.forEach (s : Start) (operands : List String)
    (f : Disk → String → Except IoError Unit × Disk) (describe : String → String) : Finish :=
  let (disk, messages) := operands.foldl (fun (acc : Disk × List UInt8) o =>
    match f acc.1 o with
    | (.ok (), d) => (d, acc.2)
    | (.error e, d) => (d, acc.2 ++ line (s.name ++ ": " ++ describe o ++ ": " ++ reason e)))
    (s.disk, [])
  let s := { s with disk }
  s.finish (if messages.isEmpty then 0 else 1) [] messages

/-- A change of the disk that happens or not. -/
def whole (d : Disk) : Except IoError Disk → Except IoError Unit × Disk
  | .ok d' => (.ok (), d')
  | .error e => (.error e, d)

/-- Makes directories. -/
def mkdir : Utility := fun s =>
  let (options, operands) := splitOptions s.args
  s.forEach operands
    (fun d o =>
      if hasOption options 'p' then d.makeDirAll s.cwd ⟨o⟩ else whole d (d.makeDir s.cwd ⟨o⟩))
    fun o => "cannot create directory '" ++ o ++ "'"

/-- Removes files and, if asked for, directories. -/
def rm : Utility := fun s =>
  let (options, operands) := splitOptions s.args
  let forced := hasOption options 'f'
  s.forEach operands
    (fun d o =>
      let result := match d.lstat s.cwd ⟨o⟩ with
        | .ok n =>
          if n.isDir && (hasOption options 'r' || hasOption options 'R') then
            d.removeDirAll s.cwd ⟨o⟩
          else whole d (d.removeFile s.cwd ⟨o⟩)
        | .error e => (.error e, d)
      match result with
      | (.error e, d) => (if forced && e.isNotFound then .ok () else .error e, d)
      | r => r)
    fun o => "cannot remove '" ++ o ++ "'"

/-- Makes files that are missing and marks the others as changed. -/
def touch : Utility := fun s =>
  let (_, operands) := splitOptions s.args
  s.forEach operands
    (fun d o =>
      let old := match d.readFile s.cwd ⟨o⟩ with
        | .ok bs => bs
        | .error _ => ByteArray.empty
      if d.isDir s.cwd ⟨o⟩ then (.ok (), d) else whole d (d.writeFile s.cwd ⟨o⟩ old))
    fun o => "cannot touch '" ++ o ++ "'"

/-- The path that a file gets at a target, which may be a directory. -/
def Start.landing (s : Start) (source target : String) : Path :=
  let name := ((⟨source⟩ : Path).fileName?).getD source
  if s.disk.isDir s.cwd ⟨target⟩ then (⟨target⟩ : Path).child name else ⟨target⟩

/-- Copies files. -/
def cp : Utility := fun s =>
  let (_, operands) := splitOptions s.args
  let target := operands.getLastD ""
  s.forEach operands.dropLast
    (fun d o => whole d (d.copyFile s.cwd ⟨o⟩ (s.landing o target)))
    fun o => "cannot stat '" ++ o ++ "'"

/-- Moves files. -/
def mv : Utility := fun s =>
  let (_, operands) := splitOptions s.args
  let target := operands.getLastD ""
  s.forEach operands.dropLast
    (fun d o => whole d (d.rename s.cwd ⟨o⟩ (s.landing o target)))
    fun o => "cannot stat '" ++ o ++ "'"

/-- Removes empty directories. -/
def rmdir : Utility := fun s =>
  let (_, operands) := splitOptions s.args
  s.forEach operands
    (fun d o =>
      match d.readDir s.cwd ⟨o⟩ with
      | .error e => (.error e, d)
      | .ok [] => d.removeDirAll s.cwd ⟨o⟩
      | .ok _ => (.error (.os .notEmpty), d))
    fun o => "failed to remove '" ++ o ++ "'"

/-- Makes symbolic links, or copies where links would share a file. -/
def ln : Utility := fun s =>
  let (options, operands) := splitOptions s.args
  let target := operands.getLastD ""
  s.forEach operands.dropLast
    (fun d o =>
      let place := s.landing o target
      if hasOption options 's' then whole d (d.makeLink s.cwd place ⟨o⟩)
      else if d.pathExists s.cwd place then (.error (.os .alreadyExists), d)
      else whole d (d.copyFile s.cwd ⟨o⟩ place))
    fun o => "failed to create " ++ (if hasOption options 's' then "symbolic" else "hard") ++
      " link '" ++ (s.landing o target).text ++ "'"

/-- Whether a mode lets a file be run, if it says anything about that. -/
def modeRuns? (mode : String) : Option Bool :=
  match mode.toNat? with
  | some n => some (n / 100 % 2 = 1)
  | none =>
    match mode.toList.dropWhile (fun c => c ≠ '+' && c ≠ '-' && c ≠ '=') with
    | sign :: letters => if letters.contains 'x' then some (sign ≠ '-') else none
    | [] => none

/-- Says whether files can be run. -/
def chmod : Utility := fun s =>
  s.forEach (s.args.drop 1)
    (fun d o =>
      match d.locate s.cwd ⟨o⟩ true, modeRuns? (s.args.headD "") with
      | .ok (place, .file data), some x => (.ok (), d.putFile place data.bytes x)
      | .ok _, _ => (.ok (), d)
      | .error e, _ => (.error e, d))
    fun o => "cannot access '" ++ o ++ "'"

/-- Hands its input on, and keeps it in files. -/
def tee : Utility := fun s =>
  let (options, operands) := splitOptions s.args
  let old (d : Disk) (o : String) : ByteArray :=
    if hasOption options 'a' then (d.readFile s.cwd ⟨o⟩).toOption.getD ByteArray.empty
    else ByteArray.empty
  let f := s.forEach operands
    (fun d o => whole d (d.writeFile s.cwd ⟨o⟩ (old d o ++ ⟨s.input.toArray⟩))) id
  { f with written := (out, s.input) :: f.written }

/-- Writes the names in directories. -/
def ls : Utility := fun s =>
  let (options, operands) := splitOptions s.args
  let all := hasOption options 'a'
  let shown (n : Name) : Bool := all || n.text.toList.head? ≠ some '.'
  let names (o : String) : Except IoError (List String) :=
    match s.disk.readDir s.cwd ⟨o⟩ with
    | .ok es => .ok ((if all then [".", ".."] else []) ++
        ((es.map (·.1)).filter shown |>.map Name.text).mergeSort (· ≤ ·))
    | .error e => if s.disk.pathExists s.cwd ⟨o⟩ then .ok [o] else .error e
  let (results, messages) := (if operands.isEmpty then ["."] else operands).foldl
    (fun (acc : List UInt8 × List UInt8) o =>
      match names o with
      | .ok ns => (acc.1 ++ ns.flatMap line, acc.2)
      | .error e =>
        (acc.1, acc.2 ++ line (s.name ++ ": cannot access '" ++ o ++ "': " ++ reason e)))
    ([], [])
  s.finish (if messages.isEmpty then 0 else 2) results messages

/-- Decides a condition. -/
def test : Utility := fun s =>
  match Shell.holds s.disk s.cwd s.args with
  | .ok v => s.finish (if v then 0 else 1) [] []
  | .error e => s.finish 2 [] (line (s.name ++ ": " ++ e))

/-- Decides a condition in brackets. -/
def bracket : Utility := fun s =>
  if s.args.getLast? = some "]" then test { s with args := s.args.dropLast }
  else s.finish 2 [] (line (s.name ++ ": missing ']'"))

/-- The utilities with their names. -/
def utilities : List (String × Utility) :=
  [("true", fun s => s.succeed []), ("false", fun s => s.finish 1 [] []),
   ("sleep", fun s => s.succeed []), ("echo", echo), ("printf", printf), ("cat", cat),
   ("head", head), ("tail", tail), ("tr", tr), ("wc", wc), ("sort", sort), ("seq", seq),
   ("yes", yes), ("tac", tac), ("rmdir", rmdir), ("ln", ln), ("chmod", chmod), ("tee", tee),
   ("env", printenv), ("printenv", printenv), ("pwd", pwd), ("basename", basename),
   ("dirname", dirname), ("mkdir", mkdir), ("rm", rm), ("touch", touch), ("cp", cp), ("mv", mv),
   ("ls", ls), ("test", test), ("[", bracket)]

/-- The utility with a name. -/
def utility? (name : String) : Option Utility :=
  utilities.lookup name

end SuiteGate.Host
