import SuiteGate.Text.Lines
/-!
# JSON values

A JSON document as a tree (`Json`).  Members of objects keep their order, and names may repeat.
Texts and numbers that a document can spell but that stand for nothing keep a mark of it: a text
whose escapes are no characters is not `exact`, a number beyond all doubles is not `inRange`.
`Json.pretty` writes a tree with two blanks to a level.
-/

namespace SuiteGate

/-- A text in a JSON document; it is exact if every escape in it stood for a character. -/
structure JsonText where
  text : String
  exact : Bool
deriving DecidableEq, Repr, Inhabited

/-- A JSON document. -/
inductive Json where
  | null
  | bool (b : Bool)
  /-- A number without fraction and exponent that fits into 64 bits. -/
  | int (n : Int)
  /-- Any other number, as it is spelled. -/
  | real (spelling : String) (inRange : Bool)
  | str (s : JsonText)
  | arr (items : List Json)
  | obj (members : List (JsonText × Json))
deriving Inhabited

namespace Json

/-- A text as a document. -/
def ofString (s : String) : Json :=
  .str ⟨s, true⟩

/-- A natural number as a document. -/
def ofNat (n : Nat) : Json :=
  .int n

/-- A list of texts as a document. -/
def ofStrings (ss : List String) : Json :=
  .arr (ss.map ofString)

/-- An object as a document. -/
def ofMembers (ms : List (String × Json)) : Json :=
  .obj (ms.map fun m => (⟨m.1, true⟩, m.2))

/-! ### Writing -/

/-- One character of a text. -/
def escapeChar (c : Char) : List Char :=
  if c = '"' then ['\\', '"']
  else if c = '\\' then ['\\', '\\']
  else if c = '\n' then ['\\', 'n']
  else if c = '\r' then ['\\', 'r']
  else if c = '\t' then ['\\', 't']
  else if c = '\x08' then ['\\', 'b']
  else if c = '\x0c' then ['\\', 'f']
  else if c.toNat < 0x20 then
    let digits := Nat.toDigits 16 c.toNat
    ['\\', 'u'] ++ List.replicate (4 - digits.length) '0' ++ digits
  else [c]

/-- A text between quotes. -/
def quoted (s : String) : String :=
  String.ofList ('"' :: s.toList.flatMap escapeChar ++ ['"'])

/-- Two blanks for each level. -/
def margin (level : Nat) : String :=
  String.ofList (List.replicate (2 * level) ' ')

mutual

/-- A document, each member and item on a line of its own. -/
def prettyAt (level : Nat) : Json → String
  | .null => "null"
  | .bool b => if b then "true" else "false"
  | .int n => toString n
  | .real spelling _ => spelling
  | .str s => quoted s.text
  | .arr [] => "[]"
  | .arr items =>
    "[\n" ++ Text.join ",\n" (prettyItems (level + 1) items) ++ "\n" ++ margin level ++ "]"
  | .obj [] => "\x7b\x7d"
  | .obj members =>
    "\x7b\n" ++ Text.join ",\n" (prettyMembers (level + 1) members) ++ "\n" ++ margin level ++
      "\x7d"

/-- The items of an array, each with its margin. -/
def prettyItems (level : Nat) : List Json → List String
  | [] => []
  | j :: js => (margin level ++ prettyAt level j) :: prettyItems level js

/-- The members of an object, each with its margin. -/
def prettyMembers (level : Nat) : List (JsonText × Json) → List String
  | [] => []
  | (k, j) :: ms =>
    (margin level ++ quoted k.text ++ ": " ++ prettyAt level j) :: prettyMembers level ms

end

/-- A document over several lines. -/
def pretty (j : Json) : String :=
  prettyAt 0 j

mutual

/-- The number of arrays and objects around the innermost value. -/
def depth : Json → Nat
  | .arr items => depthItems items + 1
  | .obj members => depthMembers members + 1
  | _ => 0

/-- The greatest depth of the items of an array. -/
def depthItems : List Json → Nat
  | [] => 0
  | j :: js => max (depth j) (depthItems js)

/-- The greatest depth of the members of an object. -/
def depthMembers : List (JsonText × Json) → Nat
  | [] => 0
  | (_, j) :: ms => max (depth j) (depthMembers ms)

end

mutual

/-- Whether every text and number stands for a value. -/
def isExact : Json → Bool
  | .real _ inRange => inRange
  | .str s => s.exact
  | .arr items => exactItems items
  | .obj members => exactMembers members
  | _ => true

/-- Whether every text and number in the items of an array stands for a value. -/
def exactItems : List Json → Bool
  | [] => true
  | j :: js => isExact j && exactItems js

/-- Whether every text and number in the members of an object stands for a value. -/
def exactMembers : List (JsonText × Json) → Bool
  | [] => true
  | (k, j) :: ms => k.exact && isExact j && exactMembers ms

end

end Json

end SuiteGate
