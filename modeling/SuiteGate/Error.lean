import SuiteGate.IoError
import SuiteGate.Text.Blank
import SuiteGate.Text.Lines
import SuiteGate.Text.Quoted
/-!
# Errors

The causes for which an operation fails: the configuration (`ConfigError`), the request itself
(`UsageError`), a program (`ToolError`), a staleness check (`StalenessError`), a file operation, or
anything else (`Error`).  Each has a text (`Error.message`); `Error.chain` lists that text and the
texts of the errors behind it.
-/

namespace SuiteGate

/-- What is wrong with a configuration. -/
inductive ConfigError where
  | notFound (path : Path)
  | invalidValue (field message : String)
  | yaml (message : String)
  | toml (message : String)
  | io (cause : IoError)
deriving DecidableEq, Repr

/-- What is wrong with a request. -/
inductive UsageError where
  | conflictingFlags (flags : List String)
  | missingArgument (name : String)
  | invalid (message : String)
deriving DecidableEq, Repr

/-- What went wrong with a program. -/
inductive ToolError where
  /-- It could not be started. -/
  | spawn (command : String) (cause : IoError)
  /-- It ended with another exit code than zero, or by a signal. -/
  | nonZeroExit (command : String) (code : Option Int) (stderr : String)
  /-- Its output lacks a text. -/
  | outputMismatch (command expected : String)
  /-- Its output could not be used. -/
  | unexpectedOutput (command message : String)
deriving DecidableEq, Repr

/-- What went wrong with a staleness check. -/
inductive StalenessError where
  /-- A tree could not be walked. -/
  | walk (path : Path) (cause : IoError)
  /-- A modification time could not be read. -/
  | metadata (path : Path) (cause : IoError)
deriving DecidableEq, Repr

/-- Why an operation failed. -/
inductive Error where
  | config (e : ConfigError)
  | usage (e : UsageError)
  | tool (e : ToolError)
  | staleness (e : StalenessError)
  | io (e : IoError)
  | toml (message : String)
  | json (message : String)
  | other (message : String)
deriving DecidableEq, Repr, Inhabited

namespace ConfigError

/-- The text of an error. -/
def message : ConfigError → String
  | notFound p => "Configuration file not found at " ++ p.text
  | invalidValue field m => "Invalid configuration: " ++ field ++ " - " ++ m
  | yaml m => "YAML parsing error: " ++ m
  | toml m => "TOML parsing error: " ++ m
  | io e => "IO error reading config: " ++ e.message

/-- The texts of an error and of the errors behind it. -/
def chain (e : ConfigError) : List String :=
  e.message ::
    match e with
    | yaml m => [m]
    | toml m => [m]
    | io cause => cause.chain
    | _ => []

end ConfigError

namespace UsageError

/-- The text of an error. -/
def message : UsageError → String
  | conflictingFlags flags => "Only one of " ++ Text.join ", " flags ++ " can be specified"
  | missingArgument name => "Missing required argument: " ++ name
  | invalid m => "Invalid invocation: " ++ m

end UsageError

namespace ToolError

/-- How a program ended, with what it wrote to standard error. -/
def exitDetail (code : Option Int) (stderr : String) : String :=
  let status := match code with
    | some c => "code " ++ toString c
    | none => "a signal"
  let detail := Text.trimEnd stderr
  if detail.isEmpty then status else status ++ ": " ++ detail

/-- The text of an error. -/
def message : ToolError → String
  | spawn command cause => "Failed to start '" ++ command ++ "': " ++ cause.message
  | nonZeroExit command code stderr =>
    "Command '" ++ command ++ "' exited with " ++ exitDetail code stderr
  | outputMismatch command expected =>
    "Output of '" ++ command ++ "' did not match: expected " ++ Text.quote expected
  | unexpectedOutput command m => "Unexpected output from '" ++ command ++ "': " ++ m

/-- The texts of an error and of the errors behind it. -/
def chain (e : ToolError) : List String :=
  e.message ::
    match e with
    | spawn _ cause => cause.chain
    | _ => []

end ToolError

namespace StalenessError

/-- The text of an error. -/
def message : StalenessError → String
  | walk p cause => "Cannot walk " ++ p.text ++ ": " ++ cause.message
  | metadata p cause => "Cannot read modification time of " ++ p.text ++ ": " ++ cause.message

/-- The texts of an error and of the errors behind it. -/
def chain (e : StalenessError) : List String :=
  e.message ::
    match e with
    | walk _ cause => cause.chain
    | metadata _ cause => cause.chain

end StalenessError

namespace Error

/-- The text of an error. -/
def message : Error → String
  | config e => e.message
  | usage e => e.message
  | tool e => e.message
  | staleness e => e.message
  | io e => "IO error: " ++ e.message
  | toml m => "TOML parsing error: " ++ m
  | json m => "JSON parsing error: " ++ m
  | other m => m

/-- The texts of an error and of the errors behind it. -/
def chain : Error → List String
  | config e => e.chain
  | usage e => [e.message]
  | tool e => e.chain
  | staleness e => e.chain
  | io e => ("IO error: " ++ e.message) :: e.chain
  | toml m => ["TOML parsing error: " ++ m, m]
  | json m => ["JSON parsing error: " ++ m, m]
  | other m => [m]

end Error

end SuiteGate
