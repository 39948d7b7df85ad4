import SuiteGate.Path
import SuiteGate.Watch.Mode
/-!
# Changes that count

A watcher reports events (`Event`), each with the paths it is about.  A `Filter` decides which
paths count at all (`Filter.excludes`) and which call for a build (`Filter.triggers`).
-/

namespace SuiteGate.Watch

/-- What happened to files. -/
inductive ChangeKind where
  | created
  | written
  | renamed
  /-- Some modification. -/
  | modified
  | metadata
  | accessed
  | removed
  | other
  | unknown
deriving DecidableEq, Repr

namespace ChangeKind

/-- Whether contents may have changed. -/
def isRelevant : ChangeKind → Bool
  | created => true
  | written => true
  | renamed => true
  | modified => true
  | _ => false

end ChangeKind

/-- Something that happened to files. -/
structure Event where
  kind : ChangeKind
  paths : List Path
deriving DecidableEq, Repr

/-- Decides which changes count. -/
structure Filter where
  mode : Mode
  suiteDir : Path
  /-- The endings of files that call for a build. -/
  endings : List String

namespace Filter

/-- Whether changes at a path do not count: those of the repository itself and those that the mode
excludes. -/
def excludes (f : Filter) (p : Path) : Bool :=
  p.startsWith (f.suiteDir.child ".git") || f.mode.exclusions.any (·.holds p.text)

/-- Whether a change at a path calls for a build. -/
def triggers (f : Filter) (p : Path) : Bool :=
  !f.excludes p && f.endings.any (Text.endsWith p.text)

/-- Whether an event counts. -/
def observes (f : Filter) (e : Event) : Bool :=
  e.kind.isRelevant && e.paths.any (!f.excludes ·)

/-- Whether an event calls for a build. -/
def isTrigger (f : Filter) (e : Event) : Bool :=
  e.kind.isRelevant && e.paths.any f.triggers

end Filter

end SuiteGate.Watch
