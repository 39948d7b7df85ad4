import SuiteGate.Cli.Options
/-!
# Reading arguments

How the arguments of the command line are understood (`Cli.Request.ofArgs?`).  Each command has
options, and takes operands in one of a few ways (`Operands`).  The options of all commands may
stand in front of the command or behind it; behind it they win.  A command that passes its operands
on takes everything from the first one on as it is.
-/

namespace SuiteGate.Cli

/-! ### What can be given -/

/-- The values that an option takes. -/
inductive Values where
  /-- None: it is there or not. -/
  | none
  | any
  | notEmpty
  | oneOf (texts : List String)
deriving DecidableEq

/-- Whether an option takes a value. -/
def Values.accept (v : Values) (s : String) : Bool :=
  match v with
  | none => false
  | any => true
  | notEmpty => !s.isEmpty
  | oneOf texts => texts.contains s

/-- An option with its name behind two dashes, and its letter behind one if it has one. -/
structure OptionSpec where
  name : String
  letter : Option Char := .none
  values : Values := .none

/-- How a command takes operands. -/
inductive Operands where
  | none
  | one
  | many
  /-- They are passed on, with all that follows the first one. -/
  | passedOn
deriving DecidableEq

/-- What can be given at one level of a command line. -/
structure Level where
  options : List OptionSpec
  operands : Operands := .none
  commands : List String := []

/-- What was given at one level: the values of options, the options without values, and the
operands. -/
structure Given where
  values : List (String × String) := []
  flags : List String := []
  operands : List String := []

/-- Why reading stops before the end. -/
inductive Stop where
  | misuse
  | help
  | version
deriving DecidableEq

namespace Given

/-- Whether an option was given. -/
def has (g : Given) (name : String) : Bool :=
  g.flags.contains name || (g.values.lookup name).isSome

/-- With an option that takes no value; it can be given once. -/
def addFlag (g : Given) (o : OptionSpec) : Except Stop Given :=
  if o.name = "help" then .error .help
  else if o.name = "version" then .error .version
  else if g.has o.name then .error .misuse
  else .ok { g with flags := g.flags ++ [o.name] }

/-- With the value of an option; it can be given once. -/
def addValue (g : Given) (o : OptionSpec) (value : String) : Except Stop Given :=
  if g.has o.name || !o.values.accept value then .error .misuse
  else .ok { g with values := g.values ++ [(o.name, value)] }

end Given

/-! ### Reading a level -/

namespace Level

/-- What an argument in dashes is read as. -/
inductive Reading where
  | done (g : Given)
  /-- The value of the option comes next. -/
  | awaiting (o : OptionSpec) (g : Given)
  /-- It is no option but an operand. -/
  | operand

/-- Reads the rest of an argument behind two dashes. -/
def readLong (l : Level) (g : Given) (rest : List Char) : Except Stop Reading :=
  let name := rest.takeWhile (· ≠ '=')
  let value := if name.length = rest.length then none else some (rest.drop (name.length + 1))
  match l.options.find? (·.name.toList = name), value with
  | some o, some v =>
    if o.values = .none then .error .misuse else (g.addValue o (String.ofList v)).map .done
  | some o, none =>
    if o.values = .none then (g.addFlag o).map .done else .ok (.awaiting o g)
  | none, _ => if l.operands = .passedOn then .ok .operand else .error .misuse

/-- Reads letters behind one dash. -/
def readLetters (l : Level) : Given → List Char → Except Stop Reading
  | g, [] => .ok (.done g)
  | g, c :: rest =>
    match l.options.find? (·.letter = some c) with
    | none => .error .misuse
    | some o =>
      if o.values = .none then
        match g.addFlag o with
        | .ok g => readLetters l g rest
        | .error e => .error e
      else
        match rest with
        | [] => .ok (.awaiting o g)
        | '=' :: v => (g.addValue o (String.ofList v)).map .done
        | v => (g.addValue o (String.ofList v)).map .done

/-- Reads the rest of an argument behind one dash.  Where operands are passed on, letters that are
not all known make one. -/
def readShort (l : Level) (g : Given) (letters : List Char) : Except Stop Reading :=
  let known := letters.all fun c => l.options.any (·.letter = some c)
  if l.operands = .passedOn && !known then .ok .operand else l.readLetters g letters

/-- With an operand and the arguments behind it, as far as they are taken together.  The result has
the arguments that are left. -/
def addOperand (l : Level) (g : Given) (a : String) (rest : List String) :
    Except Stop (Given × List String) :=
  match l.operands with
  | .none => .error .misuse
  | .one => if g.operands.isEmpty then .ok ({ g with operands := [a] }, rest) else .error .misuse
  | .many => .ok ({ g with operands := g.operands ++ [a] }, rest)
  | .passedOn => .ok ({ g with operands := a :: rest }, [])

/-- Reads arguments behind the sign that no options follow. -/
def readOperands (l : Level) (g : Given) (args : List String) : Except Stop Given :=
  match l.operands, args with
  | _, [] => .ok g
  | .none, _ => .error .misuse
  | .one, args =>
    let all := g.operands ++ args
    if all.length ≤ 1 then .ok { g with operands := all } else .error .misuse
  | _, args => .ok { g with operands := g.operands ++ args }

/-- Whether an argument starts with a dash and goes on behind it. -/
def isDashed (a : String) : Bool :=
  match a.toList with
  | '-' :: _ :: _ => true
  | _ => false

/-- Reads the arguments of a level up to a command.  The result has the command and the arguments
behind it.  The number bounds the arguments. -/
def readFrom (l : Level) : Nat → Option OptionSpec → Given → List String →
    Except Stop (Given × Option (String × List String))
  | 0, _, _, _ => .error .misuse
  | _ + 1, some _, _, [] => .error .misuse
  | n + 1, some o, g, a :: rest => do
    if isDashed a then throw .misuse
    readFrom l n none (← g.addValue o a) rest
  | _ + 1, none, g, [] => .ok (g, none)
  | n + 1, none, g, a :: rest => do
    if l.commands.contains a then return (g, some (a, rest))
    if a = "--" then return (← l.readOperands g rest, none)
    let reading ← match a.toList with
      | '-' :: '-' :: cs => l.readLong g cs
      | '-' :: c :: cs => l.readShort g (c :: cs)
      | _ => pure .operand
    match reading with
    | .done g => readFrom l n none g rest
    | .awaiting o g => readFrom l n (some o) g rest
    | .operand =>
      let (g, rest) ← l.addOperand g a rest
      readFrom l n none g rest

/-- Reads the arguments of a level. -/
def read (l : Level) (args : List String) :
    Except Stop (Given × Option (String × List String)) :=
  l.readFrom (args.length + 1) none {} args

end Level

/-! ### The commands -/

/-- The options that go with every command. -/
def commonOptions : List OptionSpec :=
  [⟨"verbose", some 'v', .none⟩, ⟨"quiet", some 'q', .none⟩,
   ⟨"format", none, .oneOf ["text", "json"]⟩, ⟨"directory", some 'C', .notEmpty⟩,
   ⟨"help", some 'h', .none⟩, ⟨"version", some 'V', .none⟩]

/-- A command with its own options, its operands, and what it makes of what was given. -/
structure CommandSpec where
  name : String
  options : List OptionSpec := []
  operands : Operands := .none
  build : Given → Option Command

/-- A command that passes its operands on. -/
def CommandSpec.passing (name : String) (build : List String → Command) : CommandSpec :=
  ⟨name, [], .passedOn, fun g => some (build g.operands)⟩

/-- A command without options and operands. -/
def CommandSpec.plain (name : String) (c : Command) : CommandSpec :=
  ⟨name, [], .none, fun _ => some c⟩

/-- A command that can mend what it finds. -/
def CommandSpec.fixing (name : String) (build : Bool → Command) : CommandSpec :=
  ⟨name, [⟨"fix", none, .none⟩], .none, fun g => some (build (g.has "fix"))⟩

/-- The commands. -/
def commandSpecs : List CommandSpec :=
  [⟨"gate", [⟨"tags", none, .any⟩], .none, fun g => some (.gate (g.values.lookup "tags"))⟩,
   .plain "tags" .tags,
   .plain "nativebuild" .nativeBuild,
   .plain "nativeclean" .nativeClean,
   ⟨"watch", [⟨"full", none, .none⟩, ⟨"graalvm", none, .none⟩, ⟨"no-java", none, .none⟩], .none,
     fun g => some (.watch (g.has "full") (g.has "graalvm") (g.has "no-java"))⟩,
   .passing "python" .python,
   .passing "gvm" (.launcher .script),
   .passing "svm" (.launcher .nativeImage),
   .passing "so" (.launcher .sharedLibrary),
   .passing "punittest" .junit,
   .passing "unittests" .stdlibTests,
   .passing "retag-unittests" .retag,
   ⟨"update-import", [], .many, fun g => some (.updateImport g.operands)⟩,
   .fixing "style" .style,
   .fixing "checkcopyrights" .copyrights,
   ⟨"src-import", [⟨"cpython", none, .notEmpty⟩, ⟨"pypy", none, .notEmpty⟩, ⟨"msg", none, .any⟩],
     .none, fun g => do
       some (.refresh ⟨← g.values.lookup "cpython"⟩ ⟨← g.values.lookup "pypy"⟩
         (← g.values.lookup "msg"))⟩,
   .passing "coverage" .coverage,
   .passing "deploy-binary-if-master" .deploy,
   ⟨"import-for-graal", [], .one, fun g =>
     (g.operands.head?.filter (!·.isEmpty)).map fun p => .findImport ⟨p⟩⟩]

/-- The level in front of the command. -/
def topLevel : Level :=
  ⟨commonOptions, .none, "help" :: commandSpecs.map (·.name)⟩

/-- The settings that were given in front of the command and behind it. -/
def settingsOf (outer inner : Given) : Settings where
  verbose := outer.has "verbose" || inner.has "verbose"
  quiet := outer.has "quiet" || inner.has "quiet"
  format :=
    if ((inner.values.lookup "format").or (outer.values.lookup "format")) = some "json" then .json
    else .text
  directory := ((inner.values.lookup "directory").or (outer.values.lookup "directory")).map Path.mk

/-- Reads the arguments of a command. -/
def readCommand (outer : Given) (c : CommandSpec) (args : List String) : Option Request :=
  match (Level.mk (commonOptions ++ c.options) c.operands []).read args with
  | .error .help => some .help
  | .error .version => some (.version (some c.name))
  | .error .misuse => none
  | .ok (inner, _) => (c.build inner).map (.run (settingsOf outer inner))

/-- What arguments ask for, if they make sense. -/
def Request.ofArgs? (args : List String) : Option Request :=
  match topLevel.read args with
  | .error .help => some .help
  | .error .version => some (.version none)
  | .error .misuse => none
  | .ok (_, none) => none
  | .ok (outer, some (name, rest)) =>
    if name = "help" then some .help
    else (commandSpecs.find? (·.name = name)).bind fun c => readCommand outer c rest

end SuiteGate.Cli
