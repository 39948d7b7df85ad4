import SuiteGate.OsError
import SuiteGate.Path
/-!
# Errors of file operations

What can go wrong with a file operation (`IoError`): an error of the operating system, or one of a
few conditions found without it.  `IoError.message` is the text of an error and `IoError.chain`
that text followed by those of the errors behind it.
-/

namespace SuiteGate

/-- Why a file operation failed. -/
inductive IoError where
  /-- The operating system refused. -/
  | os (e : OsError)
  /-- The path holds a NUL. -/
  | nulInPath
  /-- A command holds a NUL. -/
  | nulInCommand
  /-- The bytes are not UTF-8. -/
  | notText
  /-- What was to be copied as a file is not one. -/
  | notAFile
  /-- The path does not end in a name. -/
  | noFileName (path : Path)
  /-- A tree could not be walked any further at the path. -/
  | walking (path : Path) (cause : IoError)
deriving DecidableEq, Repr, Inhabited

namespace IoError

/-- The text of an error. -/
def message : IoError → String
  | os e => e.message
  | nulInPath => "file name contained an unexpected NUL byte"
  | nulInCommand => "nul byte found in provided data"
  | notText => "stream did not contain valid UTF-8"
  | notAFile => "the source path is neither a regular file nor a symlink to a regular file"
  | noFileName p => p.text ++ " has no file name"
  | walking p cause => "IO error for operation on " ++ p.text ++ ": " ++ cause.message

/-- The texts of an error and of the errors behind it. -/
def chain : IoError → List String
  | walking p cause => (walking p cause).message :: cause.chain
  | e => [e.message]

/-- Whether the error says that there is no such entry. -/
def isNotFound : IoError → Bool
  | os e => e = OsError.notFound
  | walking _ cause => cause.isNotFound
  | _ => false

end IoError

end SuiteGate
