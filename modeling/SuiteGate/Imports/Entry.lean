import SuiteGate.Error
import SuiteGate.Text.Blank
import SuiteGate.Text.Lines
/-!
# Entries for imports

A suite definition has an entry for each suite that it imports: the quoted word `name`, a colon,
white space, the quoted name, a comma, white space, the quoted word `version`, a colon, white
space, and the quoted version of lower-case letters and digits.  Either kind of quote will do, and
the two around a word need not be the same.  `Entry.at?` reads the entry at the start of a text
and `Entry.find?` finds the first one; `version?` reads and `exchange` exchanges the version of
an import.
-/

namespace SuiteGate.Imports

/-- An entry with the text before and behind its version. -/
structure Entry where
  name : List Char
  before : List Char
  version : List Char
  after : List Char
deriving DecidableEq, Repr

/-- Reads something at the start of a text and returns it with the rest. -/
abbrev Reader := List Char → Option (List Char × List Char)

/-- Whether a character is a quote. -/
def isQuote (c : Char) : Bool :=
  c = '\'' || c = '"'

/-- Reads a quote. -/
def readQuote : Reader
  | [] => none
  | c :: cs => if isQuote c then some ([c], cs) else none

/-- Reads given characters. -/
def readExactly (word : List Char) : Reader := fun cs =>
  (Text.dropPrefix? word cs).map fun rest => (word, rest)

/-- Reads at least one character of a kind, as many as there are. -/
def readMany (kind : Char → Bool) : Reader := fun cs =>
  let run := cs.takeWhile kind
  if run.isEmpty then none else some (run, cs.dropWhile kind)

/-- Reads one thing after the other. -/
def readSequence : List Reader → Reader
  | [], cs => some ([], cs)
  | r :: rs, cs =>
    match r cs with
    | none => none
    | some (first, rest) =>
      match readSequence rs rest with
      | none => none
      | some (more, rest) => some (first ++ more, rest)

/-- Whether a character can stand in a version. -/
def isVersionChar (c : Char) : Bool :=
  c.isLower || c.isDigit

/-- Whether a character can stand in the name of any import. -/
def isNameChar (c : Char) : Bool :=
  c.isAlphanum || c = '_' || c = '-'

namespace Entry

/-- Reads what stands before the name of an entry. -/
def readOpening : Reader :=
  readSequence [readQuote, readExactly "name".toList, readQuote, readExactly [':'],
    readMany Text.isBlank, readQuote]

/-- Reads what stands between the name and the version of an entry. -/
def readMiddle : Reader :=
  readSequence [readQuote, readExactly [','], readMany Text.isBlank, readQuote,
    readExactly "version".toList, readQuote, readExactly [':'], readMany Text.isBlank, readQuote]

/-- Reads an entry at the start of a text, its name read by the given reader. -/
def at? (readName : Reader) (cs : List Char) : Option Entry := do
  let (opening, rest) ← readOpening cs
  let (name, rest) ← readName rest
  let (middle, rest) ← readMiddle rest
  let (version, rest) ← readMany isVersionChar rest
  -- The quote ends the entry; it is left at the start of what follows the version.
  let _ ← readQuote rest
  some ⟨name, opening ++ name ++ middle, version, rest⟩

/-- The first entry in a text whose name the given reader reads. -/
def find? (readName : Reader) : List Char → Option Entry
  | [] => none
  | c :: cs =>
    match at? readName (c :: cs) with
    | some e => some e
    | none => (find? readName cs).map fun e => { e with before := c :: e.before }

/-- All entries in a text, one after the other, each with what stands before it since the one
before it ended.  The number bounds the entries. -/
def all (readName : Reader) : Nat → List Char → List Entry
  | 0, _ => []
  | n + 1, cs =>
    match find? readName cs with
    | none => []
    | some e => e :: all readName n (e.after.drop 1)

end Entry

/-- The first entry for an import. -/
def findEntry (text name : String) : Option Entry :=
  Entry.find? (readExactly name.toList) text.toList

/-- The version of an import. -/
def version? (text name : String) : Option String :=
  (findEntry text name).map fun e => String.ofList e.version

/-- The text with another version for an import; it has to be as long as the one before. -/
def exchange (text name tip : String) : Except Error String :=
  match findEntry text name with
  | none => .error (.other (name ++ " not found in suite definition"))
  | some e =>
    let version := String.ofList e.version
    if version.utf8ByteSize ≠ tip.utf8ByteSize then
      .error (.other ("version " ++ version ++ " of " ++ name ++ " and new tip " ++ tip ++
        " differ in length"))
    else .ok (String.ofList (e.before ++ tip.toList ++ e.after))

/-- The imports whose version stands for the revision of the framework. -/
def frameworkImports : List String := ["compiler", "truffle", "regex", "sulong"]

/-- The version of the first import in a text that stands for the revision of the framework. -/
def frameworkVersion? (text : String) : Option String :=
  ((Entry.all (readMany isNameChar) text.length text.toList).find? fun e =>
    frameworkImports.contains (String.ofList e.name)).map fun e => String.ofList e.version

end SuiteGate.Imports
