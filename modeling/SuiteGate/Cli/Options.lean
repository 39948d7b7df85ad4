import SuiteGate.GraalVm.Launcher
/-!
# What the command line can ask for

A request is one command (`Cli.Command`) with the settings that go with all of them
(`Cli.Settings`).
-/

namespace SuiteGate.Cli

/-- How results are written. -/
inductive Format where
  | text
  | json
deriving DecidableEq, Repr

/-- What goes with every command. -/
structure Settings where
  verbose : Bool := false
  quiet : Bool := false
  format : Format := .text
  /-- The directory to work in. -/
  directory : Option Path := none
deriving DecidableEq, Repr

namespace Settings

/-- How much builds are to print; being quiet wins. -/
def verbosity (s : Settings) : Verbosity :=
  if s.quiet then .quiet else if s.verbose then .verbose else .normal

end Settings

/-- A command. -/
inductive Command where
  | gate (tags : Option String)
  | tags
  | nativeBuild
  | nativeClean
  | watch (full graalVm noJava : Bool)
  | python (args : List String)
  | launcher (l : GraalVm.Launcher) (args : List String)
  | junit (args : List String)
  | stdlibTests (args : List String)
  | retag (args : List String)
  | updateImport (names : List String)
  | style (fix : Bool)
  | copyrights (fix : Bool)
  | refresh (cpython pypy : Path) (message : String)
  | coverage (args : List String)
  | deploy (args : List String)
  | findImport (checkout : Path)
deriving DecidableEq, Repr

/-- What arguments ask for. -/
inductive Request where
  | run (settings : Settings) (command : Command)
  /-- The version, of the program or of one of its commands. -/
  | version (command : Option String)
  | help
deriving DecidableEq, Repr

end SuiteGate.Cli
