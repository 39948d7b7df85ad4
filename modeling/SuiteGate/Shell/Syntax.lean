/-!
# Commands of the shell

What a script says: words, made of pieces that are still to be replaced by text (`Shell.Piece`),
redirections, and commands (`Shell.Command`).
-/

namespace SuiteGate.Shell

/-- What is made of a parameter when it is replaced by its value. -/
inductive Adjustment where
  /-- Another text if there is no value. -/
  | orElse
  /-- Another text if there is no value, which the parameter keeps. -/
  | orAssign
  /-- Another text if there is a value. -/
  | andThen
  /-- An error if there is no value. -/
  | orFail
  | dropShortEnd
  | dropLongEnd
  | dropShortStart
  | dropLongStart
deriving DecidableEq, Repr

/-- Whether the word of an adjustment is a pattern. -/
def Adjustment.takesPattern : Adjustment → Bool
  | dropShortEnd => true
  | dropLongEnd => true
  | dropShortStart => true
  | dropLongStart => true
  | _ => false

/-- A piece of a word.  Quoted ones are neither split nor taken as a pattern. -/
inductive Piece where
  | text (cs : List Char) (quoted : Bool)
  | parameter (name : String) (quoted : Bool)
  /-- A parameter that is adjusted; with `emptyToo` an empty value counts as none. -/
  | adjusted (name : String) (kind : Adjustment) (emptyToo : Bool) (word : List Piece)
      (quoted : Bool)
  | length (name : String) (quoted : Bool)
  | arithmetic (term : List Piece) (quoted : Bool)
  /-- The output of a script. -/
  | output (script : List Char) (quoted : Bool)
deriving Inhabited

/-- A word. -/
abbrev Word := List Piece

/-- What a redirection does with a stream. -/
inductive RedirectionKind where
  | read
  | write
  | append
  | share
  /-- The target is the text that is read. -/
  | here
deriving DecidableEq, Repr, Inhabited

/-- A redirection of a stream. -/
structure Redirection where
  stream : Nat
  kind : RedirectionKind
  target : Word
deriving Inhabited

/-- A command. -/
inductive Command where
  /-- Assignments, the words of a command and its redirections, with the line it is in. -/
  | simple (line : Nat) (assignments : List (String × Word)) (words : List Word)
      (redirections : List Redirection)
  | pipeline (commands : List Command)
  | negation (c : Command)
  | both (first second : Command)
  | either (first second : Command)
  | sequence (commands : List Command)
  | choice (test yes no : Command)
  /-- A loop that goes on while the test succeeds, or until it does. -/
  | loop (until_ : Bool) (test body : Command)
  /-- A loop over words, or over the arguments. -/
  | each (name : String) (words : Option (List Word)) (body : Command)
  | select (word : Word) (arms : List (List Word × Command))
  | subshell (c : Command)
  | redirected (c : Command) (redirections : List Redirection)
  /-- A function gets a body. -/
  | define (name : String) (body : Command)
deriving Inhabited

/-- Whether a command is an empty sequence. -/
def Command.isNothing : Command → Bool
  | sequence [] => true
  | _ => false

/-- The text of a word that is nothing but bare text. -/
def literal? : Word → Option (List Char)
  | [] => some []
  | .text cs false :: rest => (literal? rest).map (cs ++ ·)
  | _ => none

end SuiteGate.Shell
