import SuiteGate.Disk.Node
import SuiteGate.Text.Seconds
/-!
# Gate events

What happens in a gate run, in order (`Event`): each task begins and then passes or fails, or is
skipped; a run without a failure is finished.  Every event but the last kind has a marker line
(`Event.marker?`), and every event an entry in the log (`Event.logEntry`).
-/

namespace SuiteGate.Gate

/-- A length of time. -/
structure Duration where
  secs : Nat
  nanos : Nat
deriving DecidableEq, Repr, Inhabited

namespace Duration

/-- The time between two points in time. -/
def between (start stop : Instant) : Duration :=
  let n := (stop.nanos - start.nanos).toNat
  ⟨n / 1000000000, n % 1000000000⟩

/-- Whole milliseconds. -/
def millis (d : Duration) : Nat :=
  d.secs * 1000 + d.nanos / 1000000

/-- Seconds with one decimal. -/
def display (d : Duration) : String :=
  Text.showSeconds d.secs d.nanos

end Duration

/-- An event of a gate run. -/
inductive Event where
  /-- A selected task begins. -/
  | began (task : String)
  /-- A task ended without an error. -/
  | passed (task : String) (duration : Duration)
  /-- A task was not selected. -/
  | skipped (task : String)
  /-- A task ended with an error, and so does the run. -/
  | failed (task : String) (duration : Duration) (error : String)
  /-- The run is over, and no task failed. -/
  | finished (passed skipped : Nat) (duration : Duration)
deriving DecidableEq, Repr

/-- The weight of a log entry. -/
inductive Level where
  | debug
  | info
  | warn
  | error
deriving DecidableEq, Repr

/-- An entry of the log. -/
structure LogEntry where
  level : Level
  message : String
  task : Option String
deriving DecidableEq, Repr

namespace Event

/-- The marker line of an event, if it has one. -/
def marker? : Event → Option String
  | began task => some ("BEGIN: " ++ task)
  | passed task _ => some ("END: " ++ task)
  | skipped task => some ("SKIPPED: " ++ task)
  | failed task _ _ => some ("FAILED: " ++ task)
  | finished .. => none

/-- The entry of an event in the log. -/
def logEntry : Event → LogEntry
  | began task => ⟨.info, "gate task starting", some task⟩
  | passed task d => ⟨.info, task ++ " passed in " ++ d.display ++ "s", none⟩
  | skipped task => ⟨.debug, "gate task not selected", some task⟩
  | failed task d e => ⟨.error, task ++ " failed after " ++ d.display ++ "s: " ++ e, none⟩
  | finished p s d =>
    ⟨.info, "Gate complete: " ++ toString p ++ " passed, " ++ toString s ++ " skipped (" ++
      d.display ++ "s)", none⟩

end Event

end SuiteGate.Gate
