import SuiteGate.Config.Document
import SuiteGate.Yaml.Token
/-!
# YAML documents

What the tokens of a YAML text say (`Yaml.parse`): one document of scalars, lists and tables.  A
missing part is a blank.  An alias stands for what its anchor was last given to; inside that very
part it stands for nothing that a setting can have.
-/

namespace SuiteGate.Yaml

/-- What is left to read, with what has been agreed on so far. -/
structure Reading where
  rest : List Token
  /-- What the handles of tags stand for. -/
  handles : List (String × String) := []
  /-- What the anchors were given to, the last one first. -/
  anchors : Array (String × Document) := #[]

/-- A part of the reading. -/
abbrev Reader (α : Type) := StateT Reading Option α

/-- The handles that need no directive. -/
def defaultHandles : List (String × String) :=
  [("!", "!"), ("!!", "tag:yaml.org,2002:")]

/-- The tag of a text that may be a number. -/
def numberTag : String := "tag:yaml.org,2002:int"

/-- The tag of a text that may be a truth value. -/
def boolTag : String := "tag:yaml.org,2002:bool"

/-- What an empty part says. -/
def blank : Document :=
  .scalar "" true true

/-- What a scalar says: a bare one may be anything, one with literal lines only what its tag
says. -/
def ofScalar (text : String) (style : ScalarStyle) (tag : Option String) : Document :=
  match style with
  | .bare => .scalar text true true
  | .literal => .scalar text (tag = some numberTag) (tag = some boolTag)
  | _ => .ofText text

/-- The name of a member. -/
def memberName (key : Document) : Option String :=
  key.text?

namespace Reader

/-- The next token. -/
def peek : Reader (Option Token) := do
  return (← get).rest.head?

/-- Goes over a token. -/
def skip : Reader Unit :=
  modify fun r => { r with rest := r.rest.drop 1 }

/-- Goes over the next token if it is the given one. -/
def accept (t : Token) : Reader Bool := do
  if (← peek) = some t then
    skip
    return true
  else return false

/-- Whether the next token is one of some. -/
def atAny (ts : List Token) : Reader Bool := do
  return (← peek).any ts.contains

/-- Requires a condition. -/
def require (b : Bool) : Reader Unit :=
  if b then pure () else failure

/-- What a tag stands for. -/
def resolveTag (handle suffix : String) : Reader String := do
  if handle.isEmpty then return suffix
  match (← get).handles.lookup handle with
  | some beginning => return beginning ++ suffix
  | none => failure

/-- Reads the anchor, if there is one. -/
def anchor? : Reader (Option String) := do
  match ← peek with
  | some (.anchor name) => skip; return some name
  | _ => return none

/-- Reads the tag, if there is one. -/
def tag? : Reader (Option (String × String)) := do
  match ← peek with
  | some (.tag handle suffix) => skip; return some (handle, suffix)
  | _ => return none

/-- Reads the anchor and the tag, in either order. -/
def properties : Reader (Option String × Option String) := do
  let first ← anchor?
  let tag ← tag?
  let anchor ← match first with
    | some name => pure (some name)
    | none => anchor?
  match tag with
  | some (handle, suffix) => return (anchor, some (← resolveTag handle suffix))
  | none => return (anchor, none)

/-- Agrees on an anchor for what the action reads. -/
def anchored (name : Option String) (action : Reader Document) : Reader Document := do
  match name with
  | none => action
  | some name =>
    let place := (← get).anchors.size
    modify fun r => { r with anchors := r.anchors.push (name, .other) }
    let d ← action
    modify fun r => { r with anchors := r.anchors.setIfInBounds place (name, d) }
    return d

/-- What an alias stands for. -/
def aliased (name : String) : Reader Document := do
  match (← get).anchors.toList.reverse.lookup name with
  | some d => return d
  | none => failure

mutual

/-- Reads a part.  A block may start only where blocks are allowed, and a list without indentation
only behind the sign of a member.  The number bounds the nesting and the members. -/
def part (blocks bareItems : Bool) : Nat → Reader Document
  | 0 => failure
  | n + 1 => do
    match ← peek with
    | some (.alias name) => skip; aliased name
    | _ =>
      let (anchor, tag) ← properties
      anchored anchor do
        match ← peek with
        | some (.scalar s style) => skip; return ofScalar s style tag
        | some .item => if bareItems then return .list (← bareList n) true else orBlank anchor tag
        | some .flowList => skip; return .list (← flowList true n) true
        | some .flowTable => skip; return .table (← flowTable true n)
        | some .blockList =>
          if blocks then
            skip
            return .list (← blockList n) true
          else orBlank anchor tag
        | some .blockTable =>
          if blocks then
            skip
            return .table (← blockTable n)
          else orBlank anchor tag
        | _ => orBlank anchor tag

/-- What is missing behind an anchor or a tag is blank. -/
def orBlank (anchor tag : Option String) : Reader Document :=
  if anchor.isSome || tag.isSome then pure blank else failure

/-- Reads a part unless one of the given tokens comes. -/
def partUnless (ends : List Token) (blocks bareItems : Bool) : Nat → Reader Document
  | 0 => failure
  | n + 1 => do if ← atAny ends then return blank else part blocks bareItems n

/-- Reads the items of a block to its end. -/
def blockList : Nat → Reader (List Document)
  | 0 => failure
  | n + 1 => do
    if ← accept .item then
      let d ← partUnless [.item, .blockEnd] true false n
      return d :: (← blockList n)
    else
      require (← accept .blockEnd)
      return []

/-- Reads items that have no block of their own. -/
def bareList : Nat → Reader (List Document)
  | 0 => failure
  | n + 1 => do
    if ← accept .item then
      let d ← partUnless [.item, .key, .value, .blockEnd] true false n
      return d :: (← bareList n)
    else return []

/-- Reads the members of a block to its end. -/
def blockTable : Nat → Reader (List (Option String × Document))
  | 0 => failure
  | n + 1 => do
    if ← accept .key then
      let key ← partUnless [.key, .value, .blockEnd] true true n
      let value ←
        if ← accept .value then partUnless [.key, .value, .blockEnd] true true n else pure blank
      return (memberName key, value) :: (← blockTable n)
    else
      require (← accept .blockEnd)
      return []

/-- Reads the value of a member inside brackets. -/
def flowValue (ends : List Token) : Nat → Reader Document
  | 0 => failure
  | n + 1 => do if ← accept .value then partUnless ends false false n else return blank

/-- Reads items to the closing bracket.  Behind the first one a comma comes before each. -/
def flowList (first : Bool) : Nat → Reader (List Document)
  | 0 => failure
  | n + 1 => do
    if ← accept .flowListEnd then return []
    if !first then require (← accept .comma)
    if ← accept .flowListEnd then return []
    let d ←
      if ← accept .key then
        let missing ← atAny [.value, .comma, .flowListEnd]
        let key ←
          if missing then
            skip
            pure blank
          else part false false n
        pure (.table [(memberName key, ← flowValue [.comma, .flowListEnd] n)])
      else part false false n
    return d :: (← flowList false n)

/-- Reads members to the closing bracket.  Behind the first one a comma comes before each. -/
def flowTable (first : Bool) : Nat → Reader (List (Option String × Document))
  | 0 => failure
  | n + 1 => do
    if ← accept .flowTableEnd then return []
    if !first then require (← accept .comma)
    if ← accept .flowTableEnd then return []
    if ← accept .key then
      let key ← partUnless [.value, .comma, .flowTableEnd] false false n
      let value ← flowValue [.comma, .flowTableEnd] n
      return (memberName key, value) :: (← flowTable false n)
    else
      let key ← part false false n
      return (memberName key, blank) :: (← flowTable false n)

end

/-- Reads directives.  The number bounds them. -/
def directives : Nat → Bool → List (String × String) → Reader (List (String × String))
  | 0, _, handles => pure handles
  | n + 1, versioned, handles => do
    match ← peek with
    | some (.directive (.version major minor)) =>
      require (!versioned && major = 1 && (minor = 1 || minor = 2))
      skip
      directives n true handles
    | some (.directive (.tag handle beginning)) =>
      require (handles.lookup handle).isNone
      skip
      directives n versioned ((handle, beginning) :: handles)
    | _ => pure handles

/-- Reads the contents of a document behind its mark. -/
def marked (n : Nat) : Reader Document := do
  match ← peek with
  | none | some .documentStart | some .documentEnd | some (.directive _) => return blank
  | _ => part true false n

/-- Goes over marks at the end of a document.  The number bounds them. -/
def documentEnds : Nat → Reader Unit
  | 0 => pure ()
  | n + 1 => do if ← accept .documentEnd then documentEnds n

/-- Reads a text with at most one document. -/
def all : Reader Document := do
  let size := 4 * (← get).rest.length + 4
  let first ← peek
  if first.isNone then return blank
  let handles ← directives size false []
  modify fun r => { r with handles := handles ++ defaultHandles }
  let d ←
    if ← accept .documentStart then marked size
    else do
      require ((← peek) = first)
      part true false size
  documentEnds size
  require (← peek).isNone
  return d

end Reader

/-- Reads a text as one document. -/
def parse (text : String) : Option Document := do
  let ts ← tokens? text
  Reader.all.run' { rest := ts }

end SuiteGate.Yaml
