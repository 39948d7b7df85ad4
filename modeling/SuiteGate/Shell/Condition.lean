import SuiteGate.Disk.Basic
/-!
# Conditions

The conditions that `test` and `[` decide (`Shell.holds`): about texts, numbers and files, with
negation, conjunction, disjunction and parentheses.
-/

namespace SuiteGate.Shell

/-- Whether a file has what an operator asks for, if it is one that asks about files. -/
def fileCondition? (d : Disk) (cwd : List Name) (op : String) (p : Path) : Option Bool :=
  let about (f : Node → Bool) : Option Bool := some (match d.stat cwd p with
    | .ok n => f n
    | .error _ => false)
  match op with
  | "-e" => about fun _ => true
  | "-r" => about fun _ => true
  | "-w" => about fun _ => true
  | "-f" => about Node.isFile
  | "-d" => about Node.isDir
  | "-x" => about fun n => match n with
    | .file data => data.executable
    | _ => true
  | "-s" => about fun n => match n with
    | .file data => data.bytes.size ≠ 0
    | _ => true
  | "-L" => some ((d.lstat cwd p).toOption.any Node.isLink)
  | "-h" => some ((d.lstat cwd p).toOption.any Node.isLink)
  | _ => none

/-- The whole number that an operand spells. -/
def operand? (s : String) : Option Int :=
  match s.trimAscii.toString.toInt? with
  | some n => some n
  | none => none

/-- What a condition comes to, or why it makes no sense. -/
abbrev Verdict := Except String Bool

/-- The time at which a file was last changed. -/
def changedAt? (d : Disk) (cwd : List Name) (p : Path) : Option Instant :=
  match d.readData cwd p with
  | .ok f => some f.modified
  | .error _ => none

/-- Compares two files, if the operator is one for two files. -/
def fileComparison? (d : Disk) (cwd : List Name) (op : String) (p q : Path) : Option Bool :=
  let newer (p q : Path) : Option Bool :=
    some (match changedAt? d cwd p, changedAt? d cwd q with
      | some t, some u => decide (u.nanos < t.nanos)
      | _, _ => false)
  match op with
  | "-nt" => newer p q
  | "-ot" => newer q p
  | "-ef" =>
    some (match d.locate cwd p true, d.locate cwd q true with
      | .ok (a, _), .ok (b, _) => decide (a = b)
      | _, _ => false)
  | _ => none

/-- The operators between two operands. -/
def comparisonOperators : List String :=
  ["=", "!=", "<", ">", "-eq", "-ne", "-lt", "-le", "-gt", "-ge", "-nt", "-ot", "-ef"]

/-- Compares two operands, if the operator is one for two texts or numbers. -/
def comparison? (a op b : String) : Option Verdict :=
  let numbers (f : Int → Int → Bool) : Option Verdict := some (match operand? a, operand? b with
    | some m, some n => .ok (f m n)
    | none, _ => .error ("Illegal number: " ++ a)
    | _, none => .error ("Illegal number: " ++ b))
  match op with
  | "=" => some (.ok (a = b))
  | "!=" => some (.ok (a ≠ b))
  | "<" => some (.ok (a < b))
  | ">" => some (.ok (b < a))
  | "-eq" => numbers fun m n => m = n
  | "-ne" => numbers fun m n => m ≠ n
  | "-lt" => numbers fun m n => m < n
  | "-le" => numbers fun m n => m ≤ n
  | "-gt" => numbers fun m n => m > n
  | "-ge" => numbers fun m n => m ≥ n
  | _ => none

mutual

/-- Reads a disjunction.  The number bounds the nesting. -/
def disjunction (d : Disk) (cwd : List Name) :
    Nat → List String → Except String (Bool × List String)
  | 0, args => .ok (false, args)
  | n + 1, args => do
    let (a, rest) ← conjunction d cwd n args
    match rest with
    | ["-o"] => .ok (true, [])
    | "-o" :: rest =>
      let (b, rest) ← disjunction d cwd n rest
      .ok (a || b, rest)
    | rest => .ok (a, rest)

/-- Reads a conjunction. -/
def conjunction (d : Disk) (cwd : List Name) :
    Nat → List String → Except String (Bool × List String)
  | 0, args => .ok (false, args)
  | n + 1, args => do
    let (a, rest) ← primary d cwd n args
    match rest with
    | ["-a"] => .ok (false, [])
    | "-a" :: rest =>
      let (b, rest) ← conjunction d cwd n rest
      .ok (a && b, rest)
    | rest => .ok (a, rest)

/-- Reads a condition without connectives. -/
def primary (d : Disk) (cwd : List Name) :
    Nat → List String → Except String (Bool × List String)
  | 0, args => .ok (false, args)
  | n + 1, args =>
    match args with
    | [] => .error "argument expected"
    | [a] => .ok (a ≠ "", [])
    | a :: op :: b :: rest =>
      match comparison? a op b with
      | some verdict => do .ok (← verdict, rest)
      | none =>
        match fileComparison? d cwd op ⟨a⟩ ⟨b⟩ with
        | some v => .ok (v, rest)
        | none => simple n a (op :: b :: rest)
    | a :: rest => simple n a rest
where
  /-- Reads what starts with an operator for one operand, or is an operand. -/
  simple (n : Nat) (a : String) (rest : List String) : Except String (Bool × List String) :=
    match a, rest with
    | "!", rest => do
      let (v, rest) ← primary d cwd n rest
      .ok (!v, rest)
    | "(", rest => do
      let (v, rest) ← disjunction d cwd n rest
      match rest with
      | ")" :: rest => .ok (v, rest)
      | _ => .error "closing paren expected"
    | "-n", b :: rest => .ok (b ≠ "", rest)
    | "-z", b :: rest => .ok (b = "", rest)
    | "-t", _ :: rest => .ok (false, rest)
    | op, b :: rest =>
      match fileCondition? d cwd op ⟨b⟩ with
      | some v => .ok (v, rest)
      | none =>
        if rest.isEmpty && comparisonOperators.contains b then .error (b ++ ": argument expected")
        else .ok (op ≠ "", b :: rest)
    | a, [] => .ok (a ≠ "", [])

end

/-- Whether a condition holds, or why it makes no sense. -/
def holds (d : Disk) (cwd : List Name) (args : List String) : Verdict :=
  if args.isEmpty then .ok false
  else
    match disjunction d cwd (4 * args.length + 4) args with
    | .error e => .error e
    | .ok (v, []) => .ok v
    | .ok (_, rest) =>
      .error ((args[args.length - rest.length - 1]?).getD "" ++ ": unexpected operator")

end SuiteGate.Shell
