import Mathlib.Data.List.Chain
import Mathlib.Data.List.Forall2
import Mathlib.Tactic.Common
import SuiteGate.Watch.Debounce
/-!
# When a watch builds

A watch is in one of two states: it waits for a message that calls for a build, or for quiet
before the build that was called for (`Wait`).  `Course` says what it can do next in either of
them, one constructor for each step, and what is left of the feed then.  The steps of every run are
such a course (`watchFrom_course`), and what holds of all courses is proved by induction on the
course, without the two nested loops.

The headline is `run_paced`: every run, on every feed, with builds of any duration and result, is
`Paced`.  No message is lost, nor is a build that a message calls for; nothing else starts a build;
and a build starts after a whole quiet period or at the end of the feed.  When builds start depends
on how long builds take and not on how they end.
-/

namespace SuiteGate.Watch

/-! ### What is to be seen of a step -/

/-- Whether a message calls for a build. -/
def Message.triggers (f : Filter) : Message → Bool
  | event e => f.isTrigger e
  | fault => false

namespace Step

/-- The message that is received in a step, and when. -/
def receipt? : Step → Option (Nat × Message)
  | received time m => some (time, m)
  | passedOver => none
  | built .. => none

/-- When the build of a step starts. -/
def start? : Step → Option Nat
  | received .. => none
  | passedOver => none
  | built start _ => some start

/-- When a step is made, where that is told. -/
def time? : Step → Option Nat
  | received time _ => some time
  | passedOver => none
  | built start _ => some start

end Step

/-- When the builds of a watch started. -/
def Outcome.starts {σ : Type} (o : Outcome σ) : List Nat :=
  o.steps.filterMap Step.start?

/-- How long the `n`-th of successive builds takes. -/
def buildTime {σ : Type} (build : σ → (Except Error Unit × Nat) × σ) (s : σ) : Nat → Nat
  | 0 => (build s).1.2
  | n + 1 => buildTime build (build s).2 n

/-- Builds that take the same time, with a result for each. -/
def steady (time : Nat) (result : Nat → Except Error Unit) (n : Nat) :
    (Except Error Unit × Nat) × Nat :=
  ((result n, time), n + 1)

theorem buildTime_steady (time : Nat) (result : Nat → Except Error Unit) (first n : Nat) :
    buildTime (steady time result) first n = time := by
  induction n generalizing first with
  | zero => rfl
  | succ n ih => exact ih (first + 1)

/-! ### Courses -/

/-- What a watch waits for. -/
inductive Wait where
  /-- A message that calls for a build. -/
  | message
  /-- Quiet, before a build that was called for. -/
  | quiet

/-- The number of builds that were called for already. -/
def Wait.due : Wait → Nat
  | message => 0
  | quiet => 1

/-- `Course f quiet closed wait now ms steps ended`: a watch that waits since `now`, with the
messages `ms` left, can make the steps and end at that time. -/
inductive Course (f : Filter) (quiet closed : Nat) :
    Wait → Nat → List (Nat × Message) → List Step → Nat → Prop where
  | ended {now : Nat} : Course f quiet closed .message now [] [] (max now closed)
  | fault {now arrival ended : Nat} {ms : List (Nat × Message)} {steps : List Step} :
      Course f quiet closed .message (max now arrival) ms steps ended →
      Course f quiet closed .message now ((arrival, .fault) :: ms)
        (.received (max now arrival) .fault :: .passedOver :: steps) ended
  | ignored {now arrival ended : Nat} {e : Event} {ms : List (Nat × Message)}
      {steps : List Step} :
      f.isTrigger e = false →
      Course f quiet closed .message (max now arrival) ms steps ended →
      Course f quiet closed .message now ((arrival, .event e) :: ms)
        (.received (max now arrival) (.event e) :: steps) ended
  | called {now arrival ended : Nat} {e : Event} {ms : List (Nat × Message)}
      {steps : List Step} :
      f.isTrigger e = true →
      Course f quiet closed .quiet (max now arrival) ms steps ended →
      Course f quiet closed .message now ((arrival, .event e) :: ms)
        (.received (max now arrival) (.event e) :: steps) ended
  | unquiet {now arrival ended : Nat} {m : Message} {ms : List (Nat × Message)}
      {steps : List Step} :
      arrival ≤ now ∨ arrival < now + quiet →
      Course f quiet closed .quiet (max now arrival) ms steps ended →
      Course f quiet closed .quiet now ((arrival, m) :: ms)
        (.received (max now arrival) m :: steps) ended
  | built {now start done ended : Nat} {result : Except Error Unit}
      {ms : List (Nat × Message)} {steps : List Step} :
      now ≤ start →
      start = now + quiet ∧ (∀ p ∈ ms.head?, now < p.1 ∧ start ≤ p.1) ∨ closed ≤ start ∧ ms = [] →
      start ≤ done →
      Course f quiet closed .message done ms steps ended →
      Course f quiet closed .quiet now ms (.built start result :: steps) ended

section

variable {f : Filter} {quiet closed : Nat}

/-- Waiting for quiet and building is a course up to the end of the build. -/
theorem settle_course {now done ended : Nat} {ms : List (Nat × Message)} {steps : List Step}
    (result : Except Error Unit) (hdone : (settle quiet closed now ms).time ≤ done)
    (h : Course f quiet closed .message done (settle quiet closed now ms).rest steps ended) :
    Course f quiet closed .quiet now ms
      ((settle quiet closed now ms).steps ++
        .built (settle quiet closed now ms).time result :: steps) ended := by
  induction ms generalizing now with
  | nil =>
    rw [settle] at h hdone ⊢
    refine .built (Nat.le_min.mpr ⟨Nat.le_add_right now quiet, Nat.le_max_left now closed⟩) ?_
      hdone h
    obtain hquiet | hclosed := Nat.le_total (now + quiet) (max now closed)
    · exact .inl ⟨Nat.min_eq_left hquiet, by simp⟩
    · exact .inr ⟨Nat.le_min.mpr ⟨by omega, Nat.le_max_right now closed⟩, rfl⟩
  | cons p ms ih =>
    obtain ⟨arrival, m⟩ := p
    rw [settle] at h hdone ⊢
    split at h <;> rename_i hin
    · rw [if_pos hin] at hdone ⊢
      exact .unquiet (by simpa using hin) (ih hdone h)
    · rw [if_neg hin] at hdone ⊢
      exact .built (Nat.le_add_right now quiet) (.inl ⟨rfl, by simpa using hin⟩) hdone h

variable (f quiet closed) in
/-- The steps of a watch are a course. -/
theorem watchFrom_course {σ : Type} (build : σ → (Except Error Unit × Nat) × σ) (now : Nat)
    (ms : List (Nat × Message)) (builds : Nat) (s : σ) :
    Course f quiet closed .message now ms
      (watchFrom quiet closed f.isTrigger build now ms builds s).steps
      (watchFrom quiet closed f.isTrigger build now ms builds s).ended := by
  induction now, ms, builds, s using watchFrom.induct quiet closed f.isTrigger build with
  | case1 now builds s =>
    rw [watchFrom]
    exact .ended
  | case2 now builds s arrival rest ih =>
    rw [watchFrom_fault]
    exact .fault ih
  | case3 now builds s arrival e rest htrigger hshorter settled ih =>
    rw [watchFrom_called _ _ _ _ htrigger]
    refine .called htrigger ?_
    have hcourse := settle_course (build s).1.1 (Nat.le_add_right _ _) ih
    show Course f quiet closed .quiet _ _ ((settled.steps ++ [_]) ++ _) _
    rw [List.append_assoc]
    exact hcourse
  | case4 now builds s arrival e rest htrigger ih =>
    rw [watchFrom_ignored _ _ _ _ htrigger]
    exact .ignored (Bool.eq_false_iff.mpr htrigger) ih

/-- A build was called for: a message among the steps triggers one, and no build started since. -/
def CalledFor (f : Filter) (steps : List Step) : Prop :=
  ∃ earlier t m since, steps = earlier ++ .received t m :: since ∧ m.triggers f = true ∧
    ∀ start result, .built start result ∉ since

/-- A build that keeps the quiet period after a receipt, and after all that follow, keeps it after
the point in time before them. -/
theorem quiet_received {now arrival start : Nat} {m : Message} {steps : List Step}
    (h : max now arrival + quiet ≤ start ∧ ∀ t m, .received t m ∈ steps → t + quiet ≤ start) :
    now + quiet ≤ start ∧
      ∀ t m', .received t m' ∈ .received (max now arrival) m :: steps → t + quiet ≤ start := by
  obtain ⟨hnow, hsteps⟩ := h
  refine ⟨by omega, fun t m' hmem => ?_⟩
  obtain heq | hmem := List.mem_cons.mp hmem
  · cases heq
    exact hnow
  · exact hsteps t m' hmem

theorem CalledFor.cons {steps : List Step} {step : Step} (h : CalledFor f steps) :
    CalledFor f (step :: steps) := by
  obtain ⟨earlier, t, m, since, rfl, hm, hnone⟩ := h
  exact ⟨step :: earlier, t, m, since, rfl, hm, hnone⟩

/-- The first of some steps comes before another one. -/
theorem split_of_ne {step other : Step} {steps before after : List Step}
    (h : step :: steps = before ++ other :: after) (hne : step ≠ other) :
    ∃ between, before = step :: between ∧ steps = between ++ other :: after := by
  obtain ⟨-, heq⟩ | hlater := List.cons_eq_append_iff.mp h
  · exact absurd (List.cons.inj heq).1.symm hne
  · exact hlater

/-! ### What holds of every course -/

namespace Course

variable {wait : Wait} {now ended : Nat} {ms : List (Nat × Message)} {steps : List Step}

/-- Every message is received, in its order and not before it arrives. -/
theorem receives (h : Course f quiet closed wait now ms steps ended) :
    List.Forall₂ (fun sent got => sent.1 ≤ got.1 ∧ sent.2 = got.2) ms
      (steps.filterMap Step.receipt?) := by
  induction h with
  | ended => exact .nil
  | fault _ ih => exact .cons ⟨Nat.le_max_right .., rfl⟩ ih
  | ignored _ _ ih => exact .cons ⟨Nat.le_max_right .., rfl⟩ ih
  | called _ _ ih => exact .cons ⟨Nat.le_max_right .., rfl⟩ ih
  | unquiet _ _ ih => exact .cons ⟨Nat.le_max_right .., rfl⟩ ih
  | built _ _ _ _ ih => exact ih

/-- Nothing is received from an empty feed. -/
theorem not_received (h : Course f quiet closed wait now [] steps ended) (t : Nat) (m : Message) :
    .received t m ∉ steps := by
  intro hmem
  have hnone : steps.filterMap Step.receipt? = [] := List.forall₂_nil_left_iff.mp h.receives
  exact absurd (List.filterMap_eq_nil_iff.mp hnone _ hmem) (by simp [Step.receipt?])

theorem closed_le_ended (h : Course f quiet closed wait now ms steps ended) : closed ≤ ended := by
  induction h with
  | ended => exact Nat.le_max_right ..
  | fault _ ih => exact ih
  | ignored _ _ ih => exact ih
  | called _ _ ih => exact ih
  | unquiet _ _ ih => exact ih
  | built _ _ _ _ ih => exact ih

/-- Times do not decrease, from the start to the end. -/
theorem isChain_times (h : Course f quiet closed wait now ms steps ended) :
    (now :: (steps.filterMap Step.time? ++ [ended])).IsChain (· ≤ ·) := by
  induction h with
  | @ended now => exact .cons_cons (Nat.le_max_left ..) (.singleton _)
  | fault _ ih => exact .cons_cons (Nat.le_max_left ..) ih
  | ignored _ _ ih => exact .cons_cons (Nat.le_max_left ..) ih
  | called _ _ ih => exact .cons_cons (Nat.le_max_left ..) ih
  | unquiet _ _ ih => exact .cons_cons (Nat.le_max_left ..) ih
  | built hnow _ hdone _ ih =>
    -- the end of a build is no step, and what follows is made at the earliest then
    exact .cons_cons hnow (ih.imp_head fun hle => hdone.trans hle)

/-- A watch that waits for quiet builds in the end. -/
theorem exists_built (h : Course f quiet closed .quiet now ms steps ended) :
    ∃ start result, .built start result ∈ steps ∧ now ≤ start := by
  generalize hwait : Wait.quiet = wait at h
  induction h with
  | ended => cases hwait
  | fault => cases hwait
  | ignored => cases hwait
  | called => cases hwait
  | unquiet _ _ ih =>
    obtain ⟨start, result, hmem, hle⟩ := ih hwait
    exact ⟨start, result, List.mem_cons_of_mem _ hmem, (Nat.le_max_left ..).trans hle⟩
  | built hnow => exact ⟨_, _, List.mem_cons_self, hnow⟩

/-- A message that calls for a build is followed by one. -/
theorem exists_built_after (h : Course f quiet closed wait now ms steps ended) {t : Nat}
    {m : Message} {after : List Step} (hm : m.triggers f = true)
    (hafter : .received t m :: after <:+ steps) :
    ∃ start result, .built start result ∈ after ∧ t ≤ start := by
  induction h with
  | ended => simp at hafter
  | fault _ ih =>
    obtain heq | hafter := List.suffix_cons_iff.mp hafter
    · cases heq
      cases hm
    · obtain heq | hafter := List.suffix_cons_iff.mp hafter
      · cases heq
      · exact ih hafter
  | ignored hignored _ ih =>
    obtain heq | hafter := List.suffix_cons_iff.mp hafter
    · cases heq
      exact absurd hm (by simp [Message.triggers, hignored])
    · exact ih hafter
  | called _ hquiet ih =>
    obtain heq | hafter := List.suffix_cons_iff.mp hafter
    · cases heq
      exact hquiet.exists_built
    · exact ih hafter
  | unquiet _ hquiet ih =>
    obtain heq | hafter := List.suffix_cons_iff.mp hafter
    · cases heq
      exact hquiet.exists_built
    · exact ih hafter
  | built _ _ _ _ ih =>
    obtain heq | hafter := List.suffix_cons_iff.mp hafter
    · cases heq
    · exact ih hafter

/-- What starts a build is a message that was received since the last one, or the one after which
the watch waits for quiet. -/
theorem calledFor (h : Course f quiet closed wait now ms steps ended) {before after : List Step}
    {start : Nat} {result : Except Error Unit}
    (hsplit : steps = before ++ .built start result :: after) :
    wait = .quiet ∧ (∀ start' result', .built start' result' ∉ before) ∨ CalledFor f before := by
  induction h generalizing before with
  | ended => simp at hsplit
  | fault _ ih =>
    obtain ⟨_, rfl, hpassed⟩ := split_of_ne hsplit (by simp)
    obtain ⟨between, rfl, hrest⟩ := split_of_ne hpassed (by simp)
    obtain ⟨⟨⟩, -⟩ | hcalled := ih hrest
    exact .inr hcalled.cons.cons
  | ignored _ _ ih =>
    obtain ⟨between, rfl, hrest⟩ := split_of_ne hsplit (by simp)
    obtain ⟨⟨⟩, -⟩ | hcalled := ih hrest
    exact .inr hcalled.cons
  | called htrigger _ ih =>
    obtain ⟨between, rfl, hrest⟩ := split_of_ne hsplit (by simp)
    obtain ⟨-, hnone⟩ | hcalled := ih hrest
    · exact .inr ⟨[], _, _, between, rfl, htrigger, hnone⟩
    · exact .inr hcalled.cons
  | unquiet _ _ ih =>
    obtain ⟨between, rfl, hrest⟩ := split_of_ne hsplit (by simp)
    obtain ⟨hwait, hnone⟩ | hcalled := ih hrest
    · exact .inl ⟨hwait, by simpa using hnone⟩
    · exact .inr hcalled.cons
  | built _ _ _ _ ih =>
    obtain ⟨rfl, -⟩ | ⟨between, rfl, hrest⟩ := List.cons_eq_append_iff.mp hsplit
    · exact .inl ⟨rfl, by simp⟩
    · obtain ⟨⟨⟩, -⟩ | hcalled := ih hrest
      exact .inr hcalled.cons

/-- A build starts a quiet period after all that was received and after the start, or at the end
of the feed. -/
theorem quiet_before_built (h : Course f quiet closed wait now ms steps ended)
    {before after : List Step} {start : Nat} {result : Except Error Unit}
    (hsplit : steps = before ++ .built start result :: after) :
    now + quiet ≤ start ∧ (∀ t m, .received t m ∈ before → t + quiet ≤ start) ∨
      closed ≤ start ∧ ∀ t m, .received t m ∉ after := by
  induction h generalizing before with
  | ended => simp at hsplit
  | fault _ ih =>
    obtain ⟨_, rfl, hpassed⟩ := split_of_ne hsplit (by simp)
    obtain ⟨between, rfl, hrest⟩ := split_of_ne hpassed (by simp)
    refine (ih hrest).imp_left fun ⟨hnow, hbetween⟩ => quiet_received ⟨hnow, ?_⟩
    simpa using hbetween
  | ignored _ _ ih =>
    obtain ⟨between, rfl, hrest⟩ := split_of_ne hsplit (by simp)
    exact (ih hrest).imp_left quiet_received
  | called _ _ ih =>
    obtain ⟨between, rfl, hrest⟩ := split_of_ne hsplit (by simp)
    exact (ih hrest).imp_left quiet_received
  | unquiet _ _ ih =>
    obtain ⟨between, rfl, hrest⟩ := split_of_ne hsplit (by simp)
    exact (ih hrest).imp_left quiet_received
  | built hnow hstart hdone hcourse ih =>
    obtain ⟨rfl, hbuilt⟩ | ⟨between, rfl, hrest⟩ := List.cons_eq_append_iff.mp hsplit
    · cases hbuilt
      obtain ⟨hquiet, -⟩ | ⟨hclosed, rfl⟩ := hstart
      · exact .inl ⟨hquiet.ge, by simp⟩
      · exact .inr ⟨hclosed, hcourse.not_received⟩
    · refine (ih hrest).imp_left fun ⟨hlater, hbetween⟩ => ⟨by omega, ?_⟩
      simpa using hbetween

/-- There is at most one build for each message that calls for one. -/
theorem length_starts_le (h : Course f quiet closed wait now ms steps ended) :
    (steps.filterMap Step.start?).length ≤ ms.countP (·.2.triggers f) + wait.due := by
  induction h with
  | ended => exact Nat.zero_le _
  | fault _ ih => exact ih
  | ignored hignored _ ih =>
    rw [List.countP_cons_of_neg (by simp [Message.triggers, hignored])]
    exact ih
  | called htrigger _ ih =>
    rw [List.countP_cons_of_pos (by exact htrigger)]
    exact ih
  | @unquiet _ _ _ m ms _ _ _ ih =>
    exact ih.trans (Nat.add_le_add_right ((List.sublist_cons_self _ ms).countP_le) 1)
  | built _ _ _ _ ih => exact Nat.succ_le_succ ih

end Course

end

/-! ### Runs -/

section

variable {σ τ : Type} (quiet closed : Nat) (isTrigger : Event → Bool)
  (build : σ → (Except Error Unit × Nat) × σ) (build' : τ → (Except Error Unit × Nat) × τ)

@[simp] theorem starts_after (steps : List Step) (o : Outcome σ) :
    (o.after steps).starts = steps.filterMap Step.start? ++ o.starts :=
  List.filterMap_append

theorem filterMap_start?_settled (settled : Settled) :
    settled.steps.filterMap Step.start? = [] := by
  rw [List.filterMap_eq_nil_iff]
  intro step hstep
  obtain ⟨p, -, rfl⟩ := List.mem_map.mp hstep
  rfl

/-- The first build after a message that calls for one starts when the wait for quiet ends. -/
theorem starts_watchFrom_called {e : Event} (htrigger : isTrigger e = true) (now arrival : Nat)
    (rest : List (Nat × Message)) (builds : Nat) (s : σ) :
    let settled := settle quiet closed (max now arrival) rest
    (watchFrom quiet closed isTrigger build now ((arrival, .event e) :: rest) builds s).starts =
      settled.time :: (watchFrom quiet closed isTrigger build (settled.time + (build s).1.2)
        settled.rest (builds + 1) (build s).2).starts := by
  intro settled
  rw [watchFrom_called _ _ _ _ htrigger, starts_after, List.filterMap_append]
  show (settled.steps.filterMap Step.start? ++ [settled.time]) ++ _ = _
  rw [filterMap_start?_settled]
  rfl

/-- A watch counts the builds that it starts. -/
theorem builds_watchFrom (now : Nat) (ms : List (Nat × Message)) (builds : Nat) (s : σ) :
    (watchFrom quiet closed isTrigger build now ms builds s).builds =
      builds + (watchFrom quiet closed isTrigger build now ms builds s).starts.length := by
  induction now, ms, builds, s using watchFrom.induct quiet closed isTrigger build with
  | case1 now builds s =>
    rw [watchFrom]
    rfl
  | case2 now builds s arrival rest ih =>
    rw [watchFrom_fault]
    exact ih
  | case3 now builds s arrival e rest htrigger hshorter settled ih =>
    rw [starts_watchFrom_called _ _ _ _ htrigger, watchFrom_called _ _ _ _ htrigger,
      List.length_cons]
    exact ih.trans (Nat.succ_add_eq_add_succ builds _)
  | case4 now builds s arrival e rest htrigger ih =>
    rw [watchFrom_ignored _ _ _ _ htrigger]
    exact ih

/-- Two watches whose builds take the same times start them at the same times. -/
theorem starts_watchFrom_congr (now : Nat) (ms : List (Nat × Message)) (builds builds' : Nat)
    (s : σ) (s' : τ)
    (htime : ∀ n < (watchFrom quiet closed isTrigger build now ms builds s).starts.length,
      buildTime build' s' n = buildTime build s n) :
    (watchFrom quiet closed isTrigger build' now ms builds' s').starts =
      (watchFrom quiet closed isTrigger build now ms builds s).starts := by
  induction now, ms, builds, s using watchFrom.induct quiet closed isTrigger build
    generalizing builds' s' with
  | case1 now builds s =>
    rw [watchFrom, watchFrom]
    rfl
  | case2 now builds s arrival rest ih =>
    rw [watchFrom_fault] at htime ⊢
    rw [watchFrom_fault]
    exact ih builds' s' htime
  | case3 now builds s arrival e rest htrigger hshorter settled ih =>
    rw [starts_watchFrom_called _ _ _ _ htrigger] at htime
    rw [starts_watchFrom_called _ _ _ _ htrigger, starts_watchFrom_called _ _ _ _ htrigger]
    have hfirst : (build' s').1.2 = (build s).1.2 := htime 0 (Nat.zero_lt_succ _)
    rw [hfirst]
    exact congrArg _ (ih (builds' + 1) (build' s').2 fun n hn =>
      htime (n + 1) (Nat.succ_lt_succ hn))
  | case4 now builds s arrival e rest htrigger ih =>
    rw [watchFrom_ignored _ _ _ _ htrigger] at htime ⊢
    rw [watchFrom_ignored _ _ _ _ htrigger]
    exact ih builds' s' htime

end

/-- What holds of a watch on a feed, whatever arrives and whatever comes of the builds. -/
structure Outcome.Paced {σ : Type} (f : Filter) (quiet : Nat) (feed : Feed) (o : Outcome σ) :
    Prop where
  /-- Every message is received, in its order and not before it arrives; so neither a failed build
  nor an error in the watcher is the end. -/
  receives : List.Forall₂ (fun sent got => sent.1 ≤ got.1 ∧ sent.2 = got.2) feed.messages
    (o.steps.filterMap Step.receipt?)
  /-- The watch ends, and not before the feed is closed. -/
  ends : feed.closed ≤ o.ended
  /-- Steps are made one after the other. -/
  inOrder : (o.steps.filterMap Step.time? ++ [o.ended]).Pairwise (· ≤ ·)
  /-- A message that calls for a build is followed by one. -/
  builds_after : ∀ before t m after, o.steps = before ++ .received t m :: after →
    m.triggers f = true → ∃ start result, .built start result ∈ after ∧ t ≤ start
  /-- No build starts that was not called for. -/
  called_before : ∀ before start result after, o.steps = before ++ .built start result :: after →
    CalledFor f before
  /-- A build starts after a whole quiet period, or when everything is received and the feed is
  closed. -/
  quiet_before : ∀ before start result after, o.steps = before ++ .built start result :: after →
    (∀ t m, .received t m ∈ before → t + quiet ≤ start) ∨
      feed.closed ≤ start ∧ ∀ t m, .received t m ∉ after
  /-- The builds are counted. -/
  builds_eq : o.builds = o.starts.length
  /-- There is at most one build for each message that calls for one. -/
  builds_le : o.builds ≤ feed.messages.countP (·.2.triggers f)

/-- **Every watch is paced, and its pace depends on the times that builds take alone.**  Builds may
take any time and have any result; if those of another watch take the same times, they start at
the same times. -/
theorem run_paced (f : Filter) (quiet : Nat) (feed : Feed) {σ τ : Type}
    (build : σ → (Except Error Unit × Nat) × σ) (s : σ)
    (build' : τ → (Except Error Unit × Nat) × τ) (s' : τ) :
    (run f quiet feed build s).Paced f quiet feed ∧
      ((∀ n < (run f quiet feed build s).builds, buildTime build' s' n = buildTime build s n) →
        (run f quiet feed build' s').starts = (run f quiet feed build s).starts) := by
  have hcourse := watchFrom_course f quiet feed.closed build 0 feed.messages 0 s
  have hbuilds : (run f quiet feed build s).builds = (run f quiet feed build s).starts.length :=
    (builds_watchFrom quiet feed.closed f.isTrigger build 0 feed.messages 0 s).trans
      (Nat.zero_add _)
  refine ⟨?_, fun htime => ?_⟩
  · exact {
      receives := hcourse.receives
      ends := hcourse.closed_le_ended
      inOrder := (List.pairwise_cons.mp hcourse.isChain_times.pairwise).2
      builds_after := fun before t m after hsplit hm =>
        hcourse.exists_built_after hm ⟨before, hsplit.symm⟩
      called_before := fun before start result after hsplit =>
        (hcourse.calledFor hsplit).resolve_left fun hwait => by cases hwait.1
      quiet_before := fun before start result after hsplit =>
        (hcourse.quiet_before_built hsplit).imp_left And.right
      builds_eq := hbuilds
      builds_le := hbuilds.trans_le hcourse.length_starts_le }
  · rw [hbuilds] at htime
    exact starts_watchFrom_congr quiet feed.closed f.isTrigger build build' 0 feed.messages 0 0 s
      s' htime

/-- The second change comes while the first build goes on.  It is built although that build fails
and an error in the watcher is reported meanwhile, and at the time at which it is built if all
builds succeed. -/
theorem run_paced_changes :
    let f : Filter := ⟨.noJava, ⟨"/suite"⟩, [".c", ".h"]⟩
    let feed : Feed := ⟨[(0, .event ⟨.written, [⟨"/suite/a.c"⟩]⟩), (30, .fault),
      (45, .event ⟨.created, [⟨"/suite/b.h"⟩]⟩)], 200⟩
    let failing := steady 60 fun _ => .error (.other "compile error")
    let passing := steady 60 fun _ => .ok ()
    (∀ n < (run f 10 feed failing 0).builds, buildTime passing 0 n = buildTime failing 0 n) ∧
      (run f 10 feed failing 0).Paced f 10 feed ∧
      (run f 10 feed failing 0).starts = [10, 80] ∧ (run f 10 feed passing 0).starts = [10, 80] := by
  intro f feed failing passing
  have htime : ∀ n < (run f 10 feed failing 0).builds,
      buildTime passing 0 n = buildTime failing 0 n := fun n _ => by
    rw [buildTime_steady, buildTime_steady]
  have hstarts : (run f 10 feed failing 0).starts = [10, 80] := by decide +kernel
  obtain ⟨hpaced, hsame⟩ := run_paced f 10 feed failing 0 passing 0
  exact ⟨htime, hpaced, hstarts, (hsame htime).trans hstarts⟩

end SuiteGate.Watch
