import SuiteGate.Error
import SuiteGate.Watch.Filter
/-!
# Building after bursts of changes

Messages arrive at points in time, in their order, until the feed is closed (`Feed`).  After an
event that calls for a build, messages are received until none arrives for a quiet period
(`settle`); then the build starts, and messages that arrive meanwhile wait (`watchFrom`).  What is
done is recorded step by step (`Step`), and the watch ends with the number of builds that it
started (`Outcome`).
-/

namespace SuiteGate.Watch

/-- What arrives from the watcher: an event, or word of an error in the watcher. -/
inductive Message where
  | event (e : Event)
  | fault
deriving DecidableEq, Repr

/-- Messages with their times of arrival, in order, and the time at which the feed is closed. -/
structure Feed where
  messages : List (Nat × Message)
  closed : Nat

/-- Something that the watch did. -/
inductive Step where
  /-- It received a message. -/
  | received (time : Nat) (m : Message)
  /-- It passed over an error in the watcher. -/
  | passedOver
  /-- It built. -/
  | built (start : Nat) (result : Except Error Unit)

namespace Step

/-- The warning about what happened in a step, if there is reason for one. -/
def warning? : Step → Option String
  | received .. => none
  | passedOver => some "watcher reported an error"
  | built _ (.error _) => some "Build failed, waiting for changes"
  | built _ (.ok _) => none

/-- The result of the build of a step. -/
def result? : Step → Option (Except Error Unit)
  | received .. => none
  | passedOver => none
  | built _ result => some result

end Step

/-- What came of waiting for quiet. -/
structure Settled where
  /-- The messages that were received meanwhile, each with the time of its receipt. -/
  received : List (Nat × Message)
  /-- The end of the wait. -/
  time : Nat
  /-- The messages that are left. -/
  rest : List (Nat × Message)

/-- The receipts of a wait as steps. -/
def Settled.steps (s : Settled) : List Step :=
  s.received.map fun p => .received p.1 p.2

/-- What came of a watch. -/
structure Outcome (σ : Type) where
  steps : List Step
  /-- The number of builds that were started. -/
  builds : Nat
  /-- When the feed was found to be at its end. -/
  ended : Nat
  state : σ

/-- The outcome with steps before its own. -/
def Outcome.after {σ : Type} (steps : List Step) (o : Outcome σ) : Outcome σ :=
  { o with steps := steps ++ o.steps }

section

variable (quiet closed : Nat)

/-- Receives messages until none arrives for the quiet period or the feed is closed.  Any message
begins the quiet period anew. -/
def settle : Nat → List (Nat × Message) → Settled
  | now, [] => ⟨[], min (now + quiet) (max now closed), []⟩
  | now, (arrival, m) :: rest =>
    if arrival ≤ now || arrival < now + quiet then
      let settled := settle (max now arrival) rest
      { settled with received := (max now arrival, m) :: settled.received }
    else ⟨[], now + quiet, (arrival, m) :: rest⟩

theorem length_settle_le (now : Nat) (ms : List (Nat × Message)) :
    (settle quiet closed now ms).rest.length ≤ ms.length := by
  induction ms generalizing now with
  | nil => simp [settle]
  | cons m ms ih =>
    rw [settle]
    split
    · exact Nat.le_succ_of_le (ih _)
    · exact Nat.le_refl _

variable {σ : Type} (isTrigger : Event → Bool) (build : σ → (Except Error Unit × Nat) × σ)

/-- Watches from a point in time on, when some builds were started already.  A build has a result
and takes some time. -/
def watchFrom (now : Nat) (ms : List (Nat × Message)) (builds : Nat) (s : σ) : Outcome σ :=
  match ms with
  | [] => ⟨[], builds, max now closed, s⟩
  | (arrival, .fault) :: rest =>
    (watchFrom (max now arrival) rest builds s).after
      [.received (max now arrival) .fault, .passedOver]
  | (arrival, .event e) :: rest =>
    if isTrigger e then
      have := length_settle_le quiet closed (max now arrival) rest
      let settled := settle quiet closed (max now arrival) rest
      (watchFrom (settled.time + (build s).1.2) settled.rest (builds + 1) (build s).2).after
        (.received (max now arrival) (.event e) :: settled.steps
          ++ [.built settled.time (build s).1.1])
    else (watchFrom (max now arrival) rest builds s).after [.received (max now arrival) (.event e)]
termination_by ms.length
decreasing_by
  · exact Nat.lt_succ_self _
  · exact Nat.lt_succ_of_le this
  · exact Nat.lt_succ_self _

theorem watchFrom_fault (now arrival : Nat) (ms : List (Nat × Message)) (builds : Nat) (s : σ) :
    watchFrom quiet closed isTrigger build now ((arrival, .fault) :: ms) builds s =
      (watchFrom quiet closed isTrigger build (max now arrival) ms builds s).after
        [.received (max now arrival) .fault, .passedOver] := by
  rw [watchFrom]

theorem watchFrom_ignored {e : Event} (h : ¬isTrigger e = true) (now arrival : Nat)
    (ms : List (Nat × Message)) (builds : Nat) (s : σ) :
    watchFrom quiet closed isTrigger build now ((arrival, .event e) :: ms) builds s =
      (watchFrom quiet closed isTrigger build (max now arrival) ms builds s).after
        [.received (max now arrival) (.event e)] := by
  rw [watchFrom, if_neg h]

theorem watchFrom_called {e : Event} (h : isTrigger e = true) (now arrival : Nat)
    (ms : List (Nat × Message)) (builds : Nat) (s : σ) :
    let settled := settle quiet closed (max now arrival) ms
    watchFrom quiet closed isTrigger build now ((arrival, .event e) :: ms) builds s =
      (watchFrom quiet closed isTrigger build (settled.time + (build s).1.2) settled.rest
        (builds + 1) (build s).2).after
        (.received (max now arrival) (.event e) :: settled.steps
          ++ [.built settled.time (build s).1.1]) := by
  intro settled
  rw [watchFrom, if_pos h]

end

/-- Watches a feed to its end. -/
def run {σ : Type} (f : Filter) (quiet : Nat) (feed : Feed)
    (build : σ → (Except Error Unit × Nat) × σ) (s : σ) : Outcome σ :=
  watchFrom quiet feed.closed f.isTrigger build 0 feed.messages 0 s

/-- The steps of a watch, and what its builds leave. -/
def watch {σ : Type} (f : Filter) (quiet : Nat) (feed : Feed)
    (build : σ → (Except Error Unit × Nat) × σ) (s : σ) : List Step × σ :=
  let outcome := run f quiet feed build s
  (outcome.steps, outcome.state)

end SuiteGate.Watch
