import Std.Data.ExtTreeSet
import SuiteGate.Gate.Tag
import SuiteGate.Text.Blank
/-!
# Selections

A selection is a set of requested tags, known or not (`Selection`).  The empty selection selects
every task; any other one selects the tasks that carry one of its tags (`Selection.selects`).  It
is read from and shown as a list with commas (`Selection.parse`, `Selection.display`).
-/

namespace SuiteGate.Gate

/-- A set of requested tags. -/
structure Selection where
  tags : Std.ExtTreeSet String
deriving Inhabited

namespace Selection

/-- The selection of every task. -/
def all : Selection := ⟨∅⟩

/-- The selection of a list of tags. -/
def ofList (tags : List String) : Selection :=
  ⟨Std.ExtTreeSet.ofList tags⟩

/-- The tags in a list with commas, without the white space around them and without empty
ones. -/
def entriesOf (list : String) : List String :=
  ((Text.split ',' list).map Text.trim).filter (· ≠ "")

/-- The selection that a list with commas asks for. -/
def parse (list : String) : Selection :=
  ofList (entriesOf list)

/-- The selection when no tags are asked for. -/
def defaults (sandboxed : Bool) : Selection :=
  ofList ((Tag.defaults sandboxed).map Tag.text)

/-- Whether no tag is requested. -/
def isEmpty (s : Selection) : Bool :=
  s.tags.isEmpty

/-- Whether a tag is requested. -/
def contains (s : Selection) (tag : String) : Bool :=
  s.tags.contains tag

/-- The requested tags, in their order as texts. -/
def toList (s : Selection) : List String :=
  s.tags.toList

/-- Whether a task with the given tags is selected. -/
def selects (s : Selection) (taskTags : List String) : Bool :=
  s.isEmpty || taskTags.any s.contains

/-- The requested tags that no task can carry. -/
def unknown (s : Selection) : List String :=
  s.toList.filter fun t => (Tag.ofText? t).isNone

/-- The requested tags with commas between them. -/
def display (s : Selection) : String :=
  if s.isEmpty then "<all>" else Text.join "," s.toList

end Selection

end SuiteGate.Gate
