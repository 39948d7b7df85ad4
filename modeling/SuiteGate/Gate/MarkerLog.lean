import SuiteGate.Gate.Event
import SuiteGate.OsError
/-!
# The marker log

Each event with a marker is logged as one line, the marker behind a time stamp in brackets
(`MarkerLog.line`).  The time stamp takes twenty-two characters, the blank behind it included.
-/

namespace SuiteGate.Gate.MarkerLog

/-- A number with at least so many digits. -/
def padded (width n : Nat) : String :=
  let digits := Nat.toDigits 10 n
  String.ofList (List.replicate (width - digits.length) '0' ++ digits)

/-- Year, month and day of the given number of days after the start of 1970, in the calendar in
use today extended to all times. -/
def dateOfDays (days : Int) : Int × Nat × Nat :=
  -- Years are counted from March, so that the leap day comes last; an era has 400 years.
  let z := days + 719468
  let era := z.fdiv 146097
  let dayOfEra := (z - era * 146097).toNat
  let yearOfEra :=
    (dayOfEra - dayOfEra / 1460 + dayOfEra / 36524 - dayOfEra / 146096) / 365
  let dayOfYear := dayOfEra - (365 * yearOfEra + yearOfEra / 4 - yearOfEra / 100)
  let monthFromMarch := (5 * dayOfYear + 2) / 153
  let day := dayOfYear - (153 * monthFromMarch + 2) / 5 + 1
  let month := if monthFromMarch < 10 then monthFromMarch + 3 else monthFromMarch - 9
  let year := (yearOfEra : Int) + era * 400 + if month ≤ 2 then 1 else 0
  (year, month, day)

/-- Date and time of day. -/
def timeStamp (t : Instant) : String :=
  let days := t.seconds.fdiv 86400
  let (year, month, day) := dateOfDays days
  let second := (t.seconds - days * 86400).toNat
  padded 4 year.toNat ++ "-" ++ padded 2 month ++ "-" ++ padded 2 day ++ " " ++
    padded 2 (second / 3600) ++ ":" ++ padded 2 (second / 60 % 60) ++ ":" ++
    padded 2 (second % 60)

/-- The line of the log for a marker. -/
def line (t : Instant) (marker : String) : String :=
  "[" ++ timeStamp t ++ "] " ++ marker ++ "\n"

/-- The lines of the log for an event: one or none. -/
def entry (t : Instant) (e : Event) : String :=
  match e.marker? with
  | some marker => line t marker
  | none => ""

/-- The warning when a line could not be written. -/
def writeWarning : String := "failed to write gate marker"

/-- Writes the line of an event with a writer that may refuse it; a refusal is a warning. -/
def report {σ : Type} (now : σ → Instant) (write : String → σ → Except OsError σ)
    (warn : String → σ → σ) (e : Event) (s : σ) : σ :=
  match e.marker? with
  | none => s
  | some marker =>
    match write (line (now s) marker) s with
    | .ok s => s
    | .error _ => warn writeWarning s

end SuiteGate.Gate.MarkerLog
