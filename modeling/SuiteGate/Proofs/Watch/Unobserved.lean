import SuiteGate.Proofs.Watch.Pacing
/-!
# Events that a filter does not observe

An event that a filter does not observe never calls for a build (`Filter.observes_of_isTrigger`).
It is still a message, and any message that is received while the watch waits for quiet begins the
quiet period anew.  So such events put builds off, and join builds that would be two
(`starts_unobserved_changes`).

Elsewhere they have no effect.  `Padded` says that one feed has more events than another, and
`starts_run_padded` that the builds start at the same times on both feeds if no event more arrives
in the quiet period of a build.  The proof goes along the run on the larger feed: an event more is
passed over (`watchFrom_max`), or it is received in a wait that ends as it would without it
(`settle_padded`).
-/

namespace SuiteGate.Watch

/-- What calls for a build is observed. -/
theorem Filter.observes_of_isTrigger (f : Filter) {e : Event} (h : f.isTrigger e = true) :
    f.observes e = true := by
  obtain ⟨hkind, hpaths⟩ := Bool.and_eq_true_iff.mp h
  obtain ⟨p, hp, htriggers⟩ := List.any_eq_true.mp hpaths
  obtain ⟨hexcludes, -⟩ := Bool.and_eq_true_iff.mp htriggers
  exact Bool.and_eq_true_iff.mpr ⟨hkind, List.any_eq_true.mpr ⟨p, hp, hexcludes⟩⟩

/-- `Padded P ms ns`: the second messages are the first ones and, in between, events with `P`. -/
inductive Padded (P : Nat → Event → Prop) : List (Nat × Message) → List (Nat × Message) → Prop where
  | nil : Padded P [] []
  | keep {ms ns : List (Nat × Message)} (p : Nat × Message) :
      Padded P ms ns → Padded P (p :: ms) (p :: ns)
  | insert {ms ns : List (Nat × Message)} {t : Nat} {e : Event} :
      P t e → Padded P ms ns → Padded P ms ((t, .event e) :: ns)

/-- The messages arrive one after the other and before the end of the feed. -/
def InTime (closed : Nat) (ms : List (Nat × Message)) : Prop :=
  ms.Pairwise (·.1 ≤ ·.1) ∧ ∀ p ∈ ms, p.1 ≤ closed

instance (closed : Nat) (ms : List (Nat × Message)) : Decidable (InTime closed ms) :=
  inferInstanceAs (Decidable (_ ∧ _))

/-- For each build of some steps: when the last message before it was received, and when it
starts. -/
def waits : List Step → List (Nat × Nat)
  | .received last _ :: .built start _ :: steps => (last, start) :: waits steps
  | _ :: steps => waits steps
  | [] => []

/-- A time is not in the quiet period after the last receipt of a wait.  If the end of the feed cuts
the wait short, there is none. -/
def Spares (quiet : Nat) (w : Nat × Nat) (t : Nat) : Prop :=
  t ≤ w.1 ∨ w.2 ≤ t ∨ w.2 < w.1 + quiet

instance (quiet : Nat) (w : Nat × Nat) : DecidablePred (Spares quiet w) :=
  fun _ => inferInstanceAs (Decidable (_ ∨ _ ∨ _))

theorem waits_subset_cons (step : Step) (steps : List Step) :
    waits steps ⊆ waits (step :: steps) := by
  intro w hw
  match step, steps with
  | .received _ _, .built _ _ :: _ => exact List.mem_cons_of_mem _ hw
  | .received _ _, .received _ _ :: _ => exact hw
  | .received _ _, .passedOver :: _ => exact hw
  | .received _ _, [] => exact hw
  | .passedOver, _ => exact hw
  | .built _ _, _ => exact hw

theorem waits_subset_of_suffix {steps steps' : List Step} (h : steps <:+ steps') :
    waits steps ⊆ waits steps' := by
  obtain ⟨earlier, rfl⟩ := h
  induction earlier with
  | nil => exact List.Subset.refl _
  | cons step earlier ih => exact fun _ hw => waits_subset_cons step _ (ih hw)

theorem Padded.sublist {P : Nat → Event → Prop} {ms ns : List (Nat × Message)}
    (h : Padded P ms ns) : ms.Sublist ns := by
  induction h with
  | nil => exact .slnil
  | keep p _ ih => exact ih.cons_cons p
  | insert _ _ ih => exact ih.cons _

section

variable {quiet closed : Nat}

theorem InTime.of_suffix {ms ns : List (Nat × Message)} (h : InTime closed ns)
    (hms : ms <:+ ns) : InTime closed ms :=
  ⟨h.1.sublist hms.sublist, fun p hp => h.2 p (hms.mem hp)⟩

theorem settle_rest_suffix (now : Nat) (ms : List (Nat × Message)) :
    (settle quiet closed now ms).rest <:+ ms := by
  induction ms generalizing now with
  | nil => exact List.suffix_rfl
  | cons p ms ih =>
    rw [settle]
    split
    · exact (ih _).trans (List.suffix_cons ..)
    · exact List.suffix_rfl

/-! ### A wait with more events -/

/-- The time of the last receipt of a wait, or of its start, and its end. -/
def Settled.wait (now : Nat) (s : Settled) : Nat × Nat :=
  ((s.received.map Prod.fst).getLastD now, s.time)

/-- A wait with one more receipt at its start. -/
def Settled.receive (time : Nat) (m : Message) (s : Settled) : Settled :=
  { s with received := (time, m) :: s.received }

theorem wait_receive (now time : Nat) (m : Message) (s : Settled) :
    (s.receive time m).wait now = s.wait time := by
  unfold Settled.wait Settled.receive
  rw [List.map_cons, List.getLastD_cons]

theorem settle_cons_of_out {now arrival : Nat} (m : Message) (ms : List (Nat × Message))
    (hout : ¬(arrival ≤ now ∨ arrival < now + quiet)) :
    settle quiet closed now ((arrival, m) :: ms) = ⟨[], now + quiet, (arrival, m) :: ms⟩ := by
  rw [settle, if_neg (by simpa using hout)]

theorem settle_cons_of_in {now arrival : Nat} (m : Message) (ms : List (Nat × Message))
    (hin : arrival ≤ now ∨ arrival < now + quiet) :
    settle quiet closed now ((arrival, m) :: ms) =
      (settle quiet closed (max now arrival) ms).receive (max now arrival) m := by
  rw [settle, if_pos (by simpa using hin)]
  rfl

/-- A wait ends with the quiet period if what is left arrives later. -/
theorem settle_of_late {now t : Nat} {ms : List (Nat × Message)} (hms : ∀ p ∈ ms, t ≤ p.1)
    (hclosed : t ≤ closed) (hnow : now < t) (hlate : now + quiet ≤ t) :
    settle quiet closed now ms = ⟨[], now + quiet, ms⟩ := by
  cases ms with
  | nil => rw [settle, Nat.min_eq_left (by omega)]
  | cons p ms =>
    have harrival : t ≤ p.1 := hms p List.mem_cons_self
    rw [settle, if_neg (by simp only [Bool.or_eq_true, decide_eq_true_eq]; omega)]

/-- A wait that the end of the feed cuts short receives everything. -/
theorem settle_of_closing {now : Nat} {ms : List (Nat × Message)} (hms : InTime closed ms)
    (hclosing : max now closed < now + quiet) :
    (settle quiet closed now ms).time = max now closed ∧
      (settle quiet closed now ms).rest = [] := by
  induction ms generalizing now with
  | nil => exact ⟨Nat.min_eq_right hclosing.le, rfl⟩
  | cons p ms ih =>
    obtain ⟨arrival, m⟩ := p
    have harrival : arrival ≤ closed := hms.2 _ List.mem_cons_self
    obtain ⟨htime, hrest⟩ := ih (hms.of_suffix (List.suffix_cons ..))
      (show max (max now arrival) closed < max now arrival + quiet by omega)
    rw [settle_cons_of_in m ms (by omega)]
    exact ⟨htime.trans (by omega), hrest⟩

/-- A wait is the same from a later point in time, if it goes on to a message after that. -/
theorem settle_of_le {now t arrival : Nat} (m : Message) (ms : List (Nat × Message))
    (hnow : now ≤ t) (ht : t ≤ arrival) (hin : arrival < now + quiet) :
    settle quiet closed t ((arrival, m) :: ms) = settle quiet closed now ((arrival, m) :: ms) := by
  rw [settle_cons_of_in m ms (.inr hin), settle_cons_of_in m ms (by omega), Nat.max_eq_right ht,
    Nat.max_eq_right (hnow.trans ht)]

/-- A wait that spares a time in its first quiet period is cut short by the end of the feed, or goes
on to a later message and is the same from that time on. -/
theorem settle_of_spares {now t : Nat} {ms : List (Nat × Message)} (hms : ∀ p ∈ ms, t ≤ p.1)
    (hnow : now < t) (hin : t < now + quiet)
    (hspared : Spares quiet ((settle quiet closed now ms).wait now) t) :
    ms = [] ∧ max now closed < now + quiet ∨
      settle quiet closed t ms = settle quiet closed now ms ∧
        (settle quiet closed t ms).wait t = (settle quiet closed now ms).wait now := by
  cases ms with
  | nil =>
    simp only [Spares, Settled.wait, settle, List.map_nil, List.getLastD_nil] at hspared
    exact .inl ⟨rfl, by omega⟩
  | cons p ms =>
    obtain ⟨arrival, m⟩ := p
    have hle : t ≤ arrival := hms _ List.mem_cons_self
    by_cases hnext : arrival < now + quiet
    · refine .inr ⟨settle_of_le m ms hnow.le hle hnext, ?_⟩
      rw [settle_cons_of_in m ms (.inr hnext), settle_cons_of_in m ms (by omega), wait_receive,
        wait_receive, Nat.max_eq_right hle, Nat.max_eq_right (hnow.le.trans hle)]
    · rw [settle_cons_of_out m ms (by omega)] at hspared
      simp only [Spares, Settled.wait, List.map_nil, List.getLastD_nil] at hspared
      omega

/-- Events in a wait have no effect on it if it spares them. -/
theorem settle_padded {P : Nat → Event → Prop} {now : Nat} {ms ns : List (Nat × Message)}
    (h : Padded P ms ns) (hns : InTime closed ns)
    (hP : ∀ t e, P t e → Spares quiet ((settle quiet closed now ms).wait now) t) :
    (settle quiet closed now ns).time = (settle quiet closed now ms).time ∧
      Padded P (settle quiet closed now ms).rest (settle quiet closed now ns).rest := by
  induction h generalizing now with
  | nil => exact ⟨rfl, .nil⟩
  | @keep ms ns p h ih =>
    obtain ⟨arrival, m⟩ := p
    by_cases hin : arrival ≤ now ∨ arrival < now + quiet
    · rw [settle_cons_of_in m ms hin, wait_receive] at hP
      rw [settle_cons_of_in m ms hin, settle_cons_of_in m ns hin]
      exact ih (hns.of_suffix (List.suffix_cons ..)) hP
    · rw [settle_cons_of_out m ms hin, settle_cons_of_out m ns hin]
      exact ⟨rfl, .keep _ h⟩
  | @insert ms ns t e hp h ih =>
    have hrest : InTime closed ns := hns.of_suffix (List.suffix_cons ..)
    have hafter : ∀ p ∈ ms, t ≤ p.1 := fun p hmem =>
      (List.pairwise_cons.mp hns.1).1 p (h.sublist.mem hmem)
    by_cases hold : t ≤ now
    · -- received at once, and the quiet period begins anew where it began
      rw [settle_cons_of_in (.event e) ns (.inl hold), Nat.max_eq_left hold]
      exact ih hrest hP
    have hnow : now < t := Nat.lt_of_not_le hold
    by_cases hin : t < now + quiet
    · obtain ⟨rfl, hclosing⟩ | ⟨hsame, hwait⟩ :=
        settle_of_spares hafter hnow hin (hP t e hp)
      · obtain ⟨htime, hleft⟩ := settle_of_closing hns hclosing
        rw [htime, hleft, settle, Nat.min_eq_right hclosing.le]
        exact ⟨rfl, .nil⟩
      · rw [settle_cons_of_in (.event e) ns (.inr hin), Nat.max_eq_right hnow.le, ← hsame]
        exact ih hrest (hwait ▸ hP)
    · rw [settle_of_late hafter (hns.2 _ List.mem_cons_self) hnow (Nat.le_of_not_lt hin),
        settle_cons_of_out (.event e) ns (by omega)]
      exact ⟨rfl, .insert hp h⟩

/-- The wait before a build starts with its last receipt. -/
theorem mem_waits_settled (now : Nat) (m : Message) (s : Settled) (result : Except Error Unit)
    (steps : List Step) :
    s.wait now ∈
      waits (.received now m :: s.steps ++ [.built s.time result] ++ steps) := by
  unfold Settled.wait Settled.steps
  obtain hnone | ⟨earlier, ⟨t, m'⟩, hlast⟩ := List.eq_nil_or_concat s.received
  · rw [hnone]
    exact List.mem_cons_self
  · rw [hlast]
    have hsuffix : [.received t m', .built s.time result] ++ steps <:+
        .received now m :: (earlier.concat (t, m')).map (fun p => .received p.1 p.2) ++
          [.built s.time result] ++ steps :=
      ⟨.received now m :: earlier.map fun p => .received p.1 p.2, by simp⟩
    have hlast : ((earlier.concat (t, m')).map Prod.fst).getLastD now = t := by simp
    rw [hlast]
    exact waits_subset_of_suffix hsuffix List.mem_cons_self

/-! ### A run with more events -/

variable {σ : Type} {f : Filter} {build : σ → (Except Error Unit × Nat) × σ}

variable (quiet f build) in
/-- A watch is the same from a later point in time, if nothing arrives before that. -/
theorem watchFrom_max (now : Nat) {t : Nat} {ms : List (Nat × Message)} (hms : ∀ p ∈ ms, t ≤ p.1)
    (hclosed : t ≤ closed) (builds : Nat) (s : σ) :
    watchFrom quiet closed f.isTrigger build (max now t) ms builds s =
      watchFrom quiet closed f.isTrigger build now ms builds s := by
  cases ms with
  | nil => rw [watchFrom, watchFrom, Nat.max_assoc, Nat.max_eq_right hclosed]
  | cons p ms =>
    obtain ⟨arrival, m⟩ := p
    have harrival : max (max now t) arrival = max now arrival := by
      rw [Nat.max_assoc, Nat.max_eq_right (hms _ List.mem_cons_self)]
    cases m with
    | fault => rw [watchFrom_fault, watchFrom_fault, harrival]
    | event e =>
      by_cases hcalls : f.isTrigger e = true
      · rw [watchFrom_called _ _ _ _ hcalls, watchFrom_called _ _ _ _ hcalls, harrival]
      · rw [watchFrom_ignored _ _ _ _ hcalls, watchFrom_ignored _ _ _ _ hcalls, harrival]

/-- Events that call for no build, and are not received in the quiet period of one, have no effect
on a watch. -/
theorem watchFrom_padded {P : Nat → Event → Prop} {steps : List Step}
    (htrigger : ∀ t e, P t e → f.isTrigger e = false)
    (hspared : ∀ t e, P t e → ∀ w ∈ waits steps, Spares quiet w t)
    (now : Nat) {ms ns : List (Nat × Message)} (h : Padded P ms ns) (hns : InTime closed ns)
    (builds : Nat) (s : σ)
    (hsteps : (watchFrom quiet closed f.isTrigger build now ms builds s).steps <:+ steps) :
    (watchFrom quiet closed f.isTrigger build now ns builds s).starts =
        (watchFrom quiet closed f.isTrigger build now ms builds s).starts ∧
      (watchFrom quiet closed f.isTrigger build now ns builds s).state =
        (watchFrom quiet closed f.isTrigger build now ms builds s).state := by
  induction now, ns, builds, s using watchFrom.induct quiet closed f.isTrigger build
    generalizing ms with
  | case1 now builds s =>
    cases h
    exact ⟨rfl, rfl⟩
  | case2 now builds s arrival rest ih =>
    obtain - | ⟨-, h⟩ := h
    rw [watchFrom_fault] at hsteps ⊢
    rw [watchFrom_fault]
    exact ih h (hns.of_suffix (List.suffix_cons ..)) ((List.suffix_append ..).trans hsteps)
  | case3 now builds s arrival e rest hcalls hshorter settled =>
    rename_i ih
    have hrest : InTime closed rest := hns.of_suffix (List.suffix_cons ..)
    cases h with
    | insert hp h => exact absurd hcalls (by simp [htrigger _ _ hp])
    | @keep ms _ _ h =>
      rw [watchFrom_called _ _ _ _ hcalls] at hsteps
      have hwait := waits_subset_of_suffix hsteps
        (mem_waits_settled (max now arrival) (.event e) _ (build s).1.1 _)
      obtain ⟨htime, hleft⟩ := settle_padded h hrest fun t e hp => hspared t e hp _ hwait
      have hafter := ih hleft (hrest.of_suffix (settle_rest_suffix ..))
        (htime ▸ (List.suffix_append ..).trans hsteps)
      rw [starts_watchFrom_called _ _ _ _ hcalls, starts_watchFrom_called _ _ _ _ hcalls,
        watchFrom_called _ _ _ _ hcalls, watchFrom_called _ _ _ _ hcalls, ← htime]
      exact ⟨congrArg _ hafter.1, hafter.2⟩
  | case4 now builds s arrival e rest hcalls ih =>
    have hrest : InTime closed rest := hns.of_suffix (List.suffix_cons ..)
    rw [watchFrom_ignored _ _ _ _ hcalls]
    cases h with
    | keep _ h =>
      rw [watchFrom_ignored _ _ _ _ hcalls] at hsteps ⊢
      exact ih h hrest ((List.suffix_append ..).trans hsteps)
    | insert hp h =>
      have hafter : ∀ p ∈ ms, arrival ≤ p.1 := fun p hmem =>
        (List.pairwise_cons.mp hns.1).1 p (h.sublist.mem hmem)
      have hsame := watchFrom_max quiet f build now hafter (hns.2 _ List.mem_cons_self) builds s
      rw [← hsame] at hsteps ⊢
      exact ih h hrest hsteps

end

/-- **Events that a filter does not observe have no effect outside of quiet periods.**  Let a
second feed have more events than a first one, all of them not observed.  If none of these arrives
in the quiet period before a build on the first feed, the builds start at the same times on both
feeds and leave the same.  A quiet period that the end of the feed cuts short does not count. -/
theorem starts_run_padded (f : Filter) (quiet : Nat) {σ : Type}
    (build : σ → (Except Error Unit × Nat) × σ) (s : σ) {closed : Nat} {ms ns : List (Nat × Message)}
    (hns : InTime closed ns)
    (hpadded : Padded (fun t e => f.observes e = false ∧
      ∀ w ∈ waits (run f quiet ⟨ms, closed⟩ build s).steps, Spares quiet w t) ms ns) :
    (run f quiet ⟨ns, closed⟩ build s).starts = (run f quiet ⟨ms, closed⟩ build s).starts ∧
      (run f quiet ⟨ns, closed⟩ build s).state = (run f quiet ⟨ms, closed⟩ build s).state := by
  refine watchFrom_padded (fun t e hp => ?_) (fun t e hp => hp.2) 0 hpadded hns 0 s List.suffix_rfl
  exact Bool.eq_false_iff.mpr fun htrigger =>
    absurd (f.observes_of_isTrigger htrigger) (by simp [hp.1])

/-- An index that is written between the two builds, and one after them, change nothing. -/
theorem starts_run_padded_index :
    let f : Filter := ⟨.noJava, ⟨"/suite"⟩, [".c", ".h"]⟩
    let change : Event := ⟨.written, [⟨"/suite/a.c"⟩]⟩
    let index : Event := ⟨.written, [⟨"/suite/.git/index"⟩]⟩
    let build := steady 0 fun _ => .ok ()
    let ms : List (Nat × Message) := [(0, .event change), (150, .event change)]
    let ns : List (Nat × Message) :=
      [(0, .event change), (120, .event index), (150, .event change), (250, .event index)]
    InTime 1000 ns ∧
      Padded (fun t e => f.observes e = false ∧
        ∀ w ∈ waits (run f 100 ⟨ms, 1000⟩ build 0).steps, Spares 100 w t) ms ns ∧
      (run f 100 ⟨ns, 1000⟩ build 0).starts = [100, 250] := by
  intro f change index build ms ns
  have hns : InTime 1000 ns := by decide
  have hpadded : Padded (fun t e => f.observes e = false ∧
      ∀ w ∈ waits (run f 100 ⟨ms, 1000⟩ build 0).steps, Spares 100 w t) ms ns :=
    .keep _ (.insert (by decide +kernel) (.keep _ (.insert (by decide +kernel) .nil)))
  refine ⟨hns, hpadded, ?_⟩
  rw [(starts_run_padded f 100 build 0 hns hpadded).1]
  decide +kernel

/-- **Events that a filter does not observe put builds off and join them.**  The index that is
written in the first quiet period begins it anew, so that the second change falls into it as
well: one build is left of two. -/
theorem starts_unobserved_changes :
    let f : Filter := ⟨.noJava, ⟨"/suite"⟩, [".c", ".h"]⟩
    let change : Event := ⟨.written, [⟨"/suite/a.c"⟩]⟩
    let index : Event := ⟨.written, [⟨"/suite/.git/index"⟩]⟩
    let build := steady 0 fun _ => .ok ()
    let ms : List (Nat × Message) := [(0, .event change), (150, .event change)]
    let ns : List (Nat × Message) := [(0, .event change), (60, .event index), (150, .event change)]
    InTime 1000 ns ∧ Padded (fun _ e => f.observes e = false) ms ns ∧
      (run f 100 ⟨ms, 1000⟩ build 0).starts = [100, 250] ∧
      (run f 100 ⟨ns, 1000⟩ build 0).starts = [250] := by
  intro f change index build ms ns
  have hpadded : Padded (fun _ e => f.observes e = false) ms ns :=
    .keep _ (.insert (by decide +kernel) (.keep _ .nil))
  exact ⟨by decide, hpadded, by decide +kernel, by decide +kernel⟩

end SuiteGate.Watch
