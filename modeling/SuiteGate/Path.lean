import SuiteGate.Text.Lines
/-!
# Paths

A path is its text (`Path`).  Nothing is simplified when paths are put together (`Path.join`), but
questions about a path are answered on its components, in which repeated separators and `.` do not
count except for a `.` at the start of a relative path (`Path.components`): `parent?`,
`fileName?`, `extension?`, `startsWith`.  `Path.pieces` is what the system sees when it follows
the path.
-/

namespace SuiteGate

/-- A path, as text. -/
structure Path where
  text : String
deriving DecidableEq, Repr, Inhabited

/-- A file name: not empty, neither `.` nor `..`, and without a separator. -/
structure Name where
  text : String
  valid : (text != "" && text != "." && text != ".." && !text.toList.contains '/') = true
deriving DecidableEq, Repr

instance : Inhabited Name := ⟨⟨"_", by decide⟩⟩

/-- The file name that a text is, if it is one. -/
def Name.ofString? (s : String) : Option Name :=
  if h : (s != "" && s != "." && s != ".." && !s.toList.contains '/') = true then some ⟨s, h⟩
  else none

namespace Path

/-- A part of a path, as far as it has a meaning. -/
inductive Component where
  | root
  | current
  | parent
  | normal (name : String)
deriving DecidableEq, Repr

/-- Whether a path starts at the root of the file tree. -/
def isAbsolute (p : Path) : Bool :=
  p.text.toList.head? = some '/'

/-- Whether a path starts at the current directory. -/
def isRelative (p : Path) : Bool :=
  !p.isAbsolute

/-- The pieces of text between the separators, without the root's. -/
def segments (p : Path) : List (List Char) :=
  Text.splitChars '/' (if p.isAbsolute then p.text.toList.tail else p.text.toList)

/-- The path that continues the first with the second; an absolute one stands for itself. -/
def join (p q : Path) : Path :=
  if q.isAbsolute || p.text.isEmpty then q
  else if p.text.toList.getLast? = some '/' then ⟨p.text ++ q.text⟩
  else ⟨p.text ++ "/" ++ q.text⟩

/-- The path continued with one more name. -/
def child (p : Path) (name : String) : Path :=
  p.join ⟨name⟩

/-- The component that a piece of a path stands for. -/
def Component.ofSegment (segment : List Char) : Option Component :=
  if segment = [] || segment = ['.'] then none
  else if segment = ['.', '.'] then some .parent
  else some (.normal (String.ofList segment))

/-- The components of a path. -/
def components (p : Path) : List Component :=
  let body := p.segments.filterMap Component.ofSegment
  if p.isAbsolute then .root :: body
  else if p.segments.head? = some ['.'] then .current :: body
  else body

/-- The pieces of a path in reverse, without those at its end that have no meaning. -/
def dropIdle (absolute : Bool) : List (List Char) → List (List Char)
  | [] => []
  | s :: rest =>
    if s = [] || (s = ['.'] && (absolute || !rest.isEmpty)) then dropIdle absolute rest
    else s :: rest

/-- The path without its last component, if it has one besides the root. -/
def parent? (p : Path) : Option Path :=
  match dropIdle p.isAbsolute p.segments.reverse with
  | [] => none
  | _ :: rest =>
    let kept := (dropIdle p.isAbsolute rest).reverse
    let body := String.ofList (['/'].intercalate kept)
    some ⟨if p.isAbsolute then "/" ++ body else body⟩

/-- The last component of a path, if it is a name. -/
def fileName? (p : Path) : Option String :=
  match p.components.getLast? with
  | some (.normal name) => some name
  | _ => none

/-- What follows the last dot of a file name; a dot at its start does not count. -/
def extensionOf? (name : String) : Option String :=
  match (Text.splitChars '.' name.toList).reverse with
  | [] => none
  | [_] => none
  | last :: before =>
    if (['.'].intercalate before.reverse).isEmpty then none else some (String.ofList last)

/-- The extension of the last component of a path. -/
def extension? (p : Path) : Option String :=
  p.fileName?.bind extensionOf?

/-- Whether the components of one path start with those of another. -/
def startsWith (p base : Path) : Bool :=
  base.components.isPrefixOf p.components

/-! ### What the system sees -/

/-- One step on the way along a path. -/
inductive Step where
  | stay
  | up
  | down (name : Name)
deriving DecidableEq, Repr

/-- The step that a piece of a path asks for. -/
def Step.ofSegment (segment : List Char) : Step :=
  match Name.ofString? (String.ofList segment) with
  | some name => .down name
  | none => if segment = ['.', '.'] then .up else .stay

/-- Whether a path ends in a separator. -/
def hasTrailingSlash (p : Path) : Bool :=
  p.text.toList.getLast? = some '/'

/-- The steps along a path, a separator at its end aside. -/
def steps (p : Path) : List Step :=
  (p.segments.filter (· ≠ [])).map Step.ofSegment

/-- The absolute path of a place given by the names that lead to it. -/
def ofNames (names : List Name) : Path :=
  ⟨"/" ++ Text.join "/" (names.map Name.text)⟩

end Path

end SuiteGate
