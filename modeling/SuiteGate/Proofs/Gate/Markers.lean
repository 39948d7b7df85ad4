import Mathlib.Data.List.Forall2
import Mathlib.Tactic.Common
import SuiteGate.Gate.MarkerLog
import SuiteGate.Gate.Run
import SuiteGate.Proofs.Paths
/-!
# What the marker log tells

The lines of the marker log are for programs that read it, so nothing may get lost on the way.
`Mark` is what a line says, `Mark.read?` reads it back, and `MarkerLog.unstamped` takes a log apart
into the lines behind their time stamps, which take `stampWidth` characters (`length_stamp`).

A gate run is watched together with its reporters (`Session`): its state carries the events that
each reporter received and the log that the marker reporter wrote (`Reported`).  What each report
and each action keeps, a run keeps (`run_keeps`); that the log belongs to the events
(`Reported.Faithful`) is such a thing.  The headline is `log_faithful`: all reporters receive the
same events, the log has one stamped line for each event with a marker, and it tells the kinds and
tasks of these events, so that runs with other ones write another log.
-/

namespace SuiteGate.Gate

/-! ### Time stamps -/

namespace MarkerLog

theorem length_padded {width n : ℕ} (hwidth : 0 < width) (h : n < Nat.pow 10 width) :
    (padded width n).length = width := by
  have hle : (Nat.toDigits 10 n).length ≤ width :=
    (Nat.length_toDigits_le_iff (by decide) hwidth).mpr h
  simp only [padded, String.length_ofList, List.length_append, List.length_replicate]
  omega

theorem isDigit_of_mem_padded {width n : ℕ} {c : Char} (h : c ∈ (padded width n).toList) :
    c.isDigit = true := by
  simp only [padded, String.toList_ofList, List.mem_append, List.mem_replicate] at h
  rcases h with ⟨-, rfl⟩ | h
  · rfl
  · exact Nat.isDigit_of_mem_toDigits (by decide) (by decide) h

/-- A year has less than a thousand days; more is not needed here. -/
theorem dayOfYear_lt {day year : ℕ} (h : day < 146097)
    (hyear : year = (day - day / 1460 + day / 36524 - day / 146096) / 365) :
    day - (365 * year + year / 4 - year / 100) < 1000 := by
  omega

/-- Months and days have two digits. -/
theorem dateOfDays_lt (days : Int) : (dateOfDays days).2.1 < 100 ∧ (dateOfDays days).2.2 < 100 := by
  simp only [dateOfDays]
  generalize days + 719468 = z
  -- the day of the era is a remainder
  have hday : (z - z.fdiv 146097 * 146097).toNat < 146097 := by
    have := Int.fmod_add_mul_fdiv z 146097
    have := Int.fmod_lt_of_pos z (show (0 : Int) < 146097 by decide)
    omega
  generalize (z - z.fdiv 146097 * 146097).toNat = day at hday
  generalize hyear : (day - day / 1460 + day / 36524 - day / 146096) / 365 = year
  have hof := dayOfYear_lt hday hyear.symm
  generalize day - (365 * year + year / 4 - year / 100) = dayOfYear at hof
  refine ⟨?_, by omega⟩
  split <;> omega

/-- The clock shows a year of four digits. -/
def ShowsYear (t : Instant) : Prop :=
  0 ≤ (dateOfDays (t.seconds.fdiv 86400)).1 ∧ (dateOfDays (t.seconds.fdiv 86400)).1 ≤ 9999

instance (t : Instant) : Decidable (ShowsYear t) :=
  inferInstanceAs (Decidable (_ ∧ _))

/-- The width of a time stamp in brackets, with the blank behind it. -/
def stampWidth : ℕ := 22

/-- The time stamp at the start of a line. -/
def stamp (t : Instant) : String :=
  "[" ++ timeStamp t ++ "] "

theorem line_eq (t : Instant) (marker : String) : line t marker = stamp t ++ marker ++ "\n" := by
  rw [line, stamp]

theorem length_stamp {t : Instant} (h : ShowsYear t) : (stamp t).length = stampWidth := by
  obtain ⟨hmonth, hday⟩ := dateOfDays_lt (t.seconds.fdiv 86400)
  have hsecond : (t.seconds - t.seconds.fdiv 86400 * 86400).toNat < 86400 := by
    have := Int.fmod_add_mul_fdiv t.seconds 86400
    have := Int.fmod_lt_of_pos t.seconds (show (0 : Int) < 86400 by decide)
    omega
  obtain ⟨hpos, hyear⟩ := h
  unfold stamp timeStamp
  simp only
  generalize (t.seconds - t.seconds.fdiv 86400 * 86400).toNat = second at hsecond
  simp only [String.length_append]
  rw [length_padded (by decide) (show _ < 10000 by omega), length_padded (by decide) hmonth,
    length_padded (by decide) hday, length_padded (by decide) (show _ < 100 by omega),
    length_padded (by decide) (show _ < 100 by omega),
    length_padded (by decide) (show _ < 100 by omega)]
  rfl

/-- A time stamp is on one line. -/
theorem newline_not_mem_stamp (t : Instant) : '\n' ∉ (stamp t).toList := by
  have hpadded : ∀ width n, '\n' ∉ (padded width n).toList := fun width n h => by
    have := isDigit_of_mem_padded h
    simp at this
  simp [stamp, timeStamp, hpadded]

end MarkerLog

/-! ### Marks -/

/-- What a marker says of a task. -/
inductive MarkKind where
  | began
  | ended
  | skipped
  | failed
deriving DecidableEq, Repr

/-- The word at the start of a marker. -/
def MarkKind.word : MarkKind → String
  | began => "BEGIN"
  | ended => "END"
  | skipped => "SKIPPED"
  | failed => "FAILED"

/-- What a marker says, and of which task. -/
structure Mark where
  kind : MarkKind
  task : String
deriving DecidableEq, Repr

namespace Mark

/-- The text of a marker. -/
def text (m : Mark) : String :=
  m.kind.word ++ ": " ++ m.task

/-- Reads the text of a marker that begins with the word of a kind. -/
def readAs? (s : String) (kind : MarkKind) : Option Mark :=
  (Text.afterPrefix? (kind.word ++ ": ") s).map (Mark.mk kind)

/-- Reads the text of a marker. -/
def read? (s : String) : Option Mark :=
  [MarkKind.began, .ended, .skipped, .failed].findSome? (readAs? s)

theorem readAs?_text (m : Mark) (kind : MarkKind) :
    readAs? m.text kind = if kind = m.kind then some m else none := by
  obtain ⟨kind', task⟩ := m
  have htext : (Mark.text ⟨kind', task⟩).toList = (kind'.word ++ ": ").toList ++ task.toList := by
    simp [text]
  rw [readAs?, Text.afterPrefix?, htext]
  by_cases hkind : kind = kind'
  · subst hkind
    rw [Text.dropPrefix?_eq_some_iff.mpr rfl]
    simp
  · -- the first letters of two words differ
    rw [if_neg hkind]
    cases kind <;> cases kind' <;> first | exact absurd rfl hkind | rfl

/-- **A marker reads back,** whatever the name of the task looks like. -/
theorem read?_text (m : Mark) : read? m.text = some m := by
  simp only [read?, List.findSome?_cons, List.findSome?_nil, readAs?_text]
  obtain ⟨kind, task⟩ := m
  cases kind <;> rfl

end Mark

/-- What the marker of an event says. -/
def Event.mark? : Event → Option Mark
  | .began task => some ⟨.began, task⟩
  | .passed task _ => some ⟨.ended, task⟩
  | .skipped task => some ⟨.skipped, task⟩
  | .failed task _ _ => some ⟨.failed, task⟩
  | .finished .. => none

theorem Event.marker?_eq (e : Event) : e.marker? = e.mark?.map Mark.text := by
  cases e <;> rfl

theorem Event.filterMap_marker? (events : List Event) :
    events.filterMap Event.marker? = (events.filterMap Event.mark?).map Mark.text := by
  rw [List.map_filterMap]
  exact List.filterMap_congr fun e _ => e.marker?_eq

/-! ### Reading a log -/

namespace MarkerLog

/-- The lines of a log without their time stamps. -/
def unstamped (log : String) : List String :=
  (Text.split '\n' log).dropLast.map fun l => String.ofList (l.toList.drop stampWidth)

/-- The log of some markers with the times at which they were written. -/
def logOf (entries : List (Instant × String)) : String :=
  String.join (entries.map fun x => line x.1 x.2)

theorem unstamped_line_append {t : Instant} {marker : String} (ht : ShowsYear t)
    (hmarker : '\n' ∉ marker.toList) (rest : String) :
    unstamped (line t marker ++ rest) = marker :: unstamped rest := by
  have hline : (line t marker ++ rest).toList =
      ((stamp t).toList ++ marker.toList) ++ '\n' :: rest.toList := by
    simp [line_eq]
  have hpiece : '\n' ∉ (stamp t).toList ++ marker.toList := by
    simp [newline_not_mem_stamp, hmarker]
  rw [unstamped, unstamped, Text.split, hline, Text.splitChars_append,
    Text.splitChars_of_not_mem hpiece, List.singleton_append, List.map_cons,
    List.dropLast_cons_of_ne_nil (by simpa using Text.splitChars_ne_nil '\n' rest.toList),
    List.map_cons, ← Text.split]
  rw [String.toList_ofList, ← length_stamp ht, ← String.length_toList, List.drop_left,
    String.ofList_toList]

/-- **The log loses no marker** that is on one line. -/
theorem unstamped_logOf {entries : List (Instant × String)}
    (h : ∀ x ∈ entries, ShowsYear x.1 ∧ '\n' ∉ x.2.toList) :
    unstamped (logOf entries) = entries.map Prod.snd := by
  induction entries with
  | nil => rfl
  | cons x entries ih =>
    obtain ⟨ht, hmarker⟩ := h x (List.mem_cons_self ..)
    have hlog : logOf (x :: entries) = line x.1 x.2 ++ logOf entries := by
      simp [logOf]
    rw [hlog, unstamped_line_append ht hmarker, List.map_cons,
      ih fun y hy => h y (List.mem_cons_of_mem _ hy)]

end MarkerLog

/-! ### What a run keeps -/

/-- An event is about one of the given tasks, if it is about a task. -/
def Event.IsAbout (names : List String) (e : Event) : Prop :=
  ∀ m ∈ e.mark?, m.task ∈ names

section

variable {σ : Type} {report : Reporter σ} {now : σ → Instant} {selection : Selection}
  {I : σ → Prop}

/-- One task keeps what its events and its action keep. -/
theorem runTask_keeps {task : Task σ}
    (hreport : ∀ e s, e.IsAbout [task.name] → I s → I (report e s))
    (haction : ∀ s, I s → I (task.action.run.run s).2) {s : σ} (h : I s) :
    I (runTask report now selection task s).2 := by
  have habout : ∀ (e : Event) (m : Mark), e.mark? = some m → m.task = task.name →
      e.IsAbout [task.name] := by
    intro e m he hm m' hm'
    rw [he, Option.mem_some] at hm'
    simp [← hm', hm]
  rw [runTask]
  split
  · have hbegan := hreport (.began task.name) s (habout _ _ rfl rfl) h
    have hdone := haction _ hbegan
    simp only
    split
    · next t hrun => exact hreport _ t (habout _ _ rfl rfl) (by simpa [hrun] using hdone)
    · next e t hrun => exact hreport _ t (habout _ _ rfl rfl) (by simpa [hrun] using hdone)
    · next t hrun => simpa [hrun] using hdone
  · exact hreport _ s (habout _ _ rfl rfl) h

theorem runTasks_keeps {tasks : List (Task σ)}
    (hreport : ∀ e s, e.IsAbout (tasks.map Task.name) → I s → I (report e s))
    (haction : ∀ task ∈ tasks, ∀ s, I s → I (task.action.run.run s).2) {s : σ} (h : I s) :
    I (runTasks report now selection tasks s).2 := by
  induction tasks generalizing s with
  | nil => exact h
  | cons task tasks ih =>
    have hhead : I (runTask report now selection task s).2 :=
      runTask_keeps (fun e s he => hreport e s fun m hm => by
          simpa using .inl (by simpa using he m hm))
        (haction task (List.mem_cons_self ..)) h
    have hrest : ∀ t, I t → I (runTasks report now selection tasks t).2 := fun t =>
      ih (fun e s he => hreport e s fun m hm => List.mem_cons_of_mem _ (he m hm))
        fun task htask => haction task (List.mem_cons_of_mem _ htask)
    rcases hrun : runTask report now selection task s with ⟨f | line, t⟩
    · rw [hrun] at hhead
      rw [runTasks_cons_of_error hrun]
      exact hhead
    · rw [hrun] at hhead
      rw [runTasks_cons_of_ok hrun]
      exact hrest t hhead

/-- **A run keeps what each of its events and actions keeps.** -/
theorem run_keeps {tasks : List (Task σ)}
    (hreport : ∀ e s, e.IsAbout (tasks.map Task.name) → I s → I (report e s))
    (haction : ∀ task ∈ tasks, ∀ s, I s → I (task.action.run.run s).2) {s : σ} (h : I s) :
    I (run report now selection tasks s).2 := by
  have htasks : I (runTasks report now selection tasks s).2 := runTasks_keeps hreport haction h
  rw [run]
  rcases hrun : runTasks report now selection tasks s with ⟨_ | _, t⟩
  · simpa [hrun] using htasks
  · exact hreport _ t (by simp [Event.IsAbout, Event.mark?]) (by simpa [hrun] using htasks)

end

/-! ### A gate with its reporters -/

/-- A state, the events that the reporter at each position received, and the marker log. -/
structure Reported (σ : Type) where
  state : σ
  received : ℕ → List Event
  log : String

/-- A reporter that only knows the state. -/
def Reporter.onState {σ : Type} (r : Reporter σ) : Reporter (Reported σ) := fun e s =>
  { s with state := r e s.state }

/-- A reporter whose events are noted as those that the one at a position received. -/
def Reporter.noted {σ : Type} (r : Reporter (Reported σ)) (position : ℕ) :
    Reporter (Reported σ) := fun e s =>
  r e { s with received := Function.update s.received position (s.received position ++ [e]) }

/-- The marker reporter, whose writer takes all that is written. -/
def Reporter.markers {σ : Type} (now : Reported σ → Instant) : Reporter (Reported σ) :=
  MarkerLog.report now (fun line s => .ok { s with log := s.log ++ line }) fun _ s => s

/-- A task that only knows the state. -/
def Task.onState {σ : Type} (task : Task σ) : Task (Reported σ) where
  name := task.name
  tags := task.tags
  action := fun s =>
    match task.action.run.run s.state with
    | (result, state) => (result, { s with state })

/-- A gate whose registered reporters are the marker reporter and any others before and after
it. -/
structure Session (σ : Type) where
  tasks : List (Task σ)
  selection : Selection
  before : List (Reporter σ)
  after : List (Reporter σ)
  now : Reported σ → Instant
  start : σ

namespace Session

variable {σ : Type} (x : Session σ)

/-- The registered reporters in their order. -/
def reporters : List (Reporter (Reported σ)) :=
  x.before.map .onState ++ .markers x.now :: x.after.map .onState

/-- Hands each event to all reporters. -/
def report : Reporter (Reported σ) :=
  .broadcast (x.reporters.zipIdx.map fun r => r.1.noted r.2)

/-- The run of the gate. -/
def outcome : Except Failure Summary × Reported σ :=
  run x.report x.now x.selection (x.tasks.map Task.onState) ⟨x.start, fun _ => [], ""⟩

/-- What is there at the end. -/
def final : Reported σ := x.outcome.2

/-- The events that the marker reporter received. -/
def events : List Event := x.final.received x.before.length

/-- The names of the tasks are on one line, and the clock shows years of four digits. -/
structure Legible : Prop where
  names : ∀ task ∈ x.tasks, '\n' ∉ task.name.toList
  years : ∀ s, MarkerLog.ShowsYear (x.now s)

end Session

/-! ### One report -/

section

variable {σ : Type}

/-- Handing an event on reaches each position once. -/
theorem received_foldl_noted {rs : List (Reporter (Reported σ))} {e : Event}
    (hrs : ∀ r ∈ rs, ∀ s, (r e s).received = s.received) (first : ℕ) (s : Reported σ) (j : ℕ) :
    ((rs.zipIdx first).foldl (fun s r => r.1.noted r.2 e s) s).received j =
      if first ≤ j ∧ j < first + rs.length then s.received j ++ [e] else s.received j := by
  induction rs generalizing first s with
  | nil =>
    rw [if_neg (by simp only [List.length_nil]; omega)]
    rfl
  | cons r rs ih =>
    have hhead : (r.noted first e s).received =
        Function.update s.received first (s.received first ++ [e]) :=
      hrs r (List.mem_cons_self ..) _
    rw [List.zipIdx_cons, List.foldl_cons,
      ih (fun r hr => hrs r (List.mem_cons_of_mem _ hr)) (first + 1), hhead]
    by_cases hj : j = first
    · subst hj
      rw [if_neg (by omega), if_pos (by simp only [List.length_cons]; omega),
        Function.update_self]
    · rw [Function.update_of_ne hj]
      congr 1
      simp only [List.length_cons, eq_iff_iff]
      omega

/-- Reporters that only know the state leave the log alone. -/
theorem log_foldl_noted {rs : List (Reporter σ)} (e : Event) (first : ℕ) (s : Reported σ) :
    (((rs.map Reporter.onState).zipIdx first).foldl (fun s r => r.1.noted r.2 e s) s).log =
      s.log := by
  induction rs generalizing first s with
  | nil => rfl
  | cons r rs ih =>
    rw [List.map_cons, List.zipIdx_cons, List.foldl_cons, ih]
    rfl

theorem log_markers (now : Reported σ → Instant) (e : Event) (s : Reported σ) :
    (Reporter.markers now e s).log = s.log ++ MarkerLog.entry (now s) e ∧
      (Reporter.markers now e s).received = s.received := by
  rw [Reporter.markers, MarkerLog.report, MarkerLog.entry]
  cases e.marker? with
  | none => simp
  | some marker => exact ⟨rfl, rfl⟩

namespace Session

variable (x : Session σ)

theorem length_reporters : x.reporters.length = x.before.length + x.after.length + 1 := by
  simp only [reporters, List.length_append, List.length_map, List.length_cons]
  omega

/-- **Every reporter receives an event** that is reported. -/
theorem received_report (e : Event) (s : Reported σ) {j : ℕ} (hj : j < x.reporters.length) :
    (x.report e s).received j = s.received j ++ [e] := by
  have hrs : ∀ r ∈ x.reporters, ∀ s, (r e s).received = s.received := by
    intro r hr s
    simp only [reporters, List.mem_append, List.mem_map, List.mem_cons] at hr
    rcases hr with ⟨r, -, rfl⟩ | rfl | ⟨r, -, rfl⟩
    · rfl
    · exact (log_markers x.now e s).2
    · rfl
  rw [report, Reporter.broadcast, List.foldl_map, received_foldl_noted hrs, if_pos (by omega)]

/-- **The marker of an event is logged once.** -/
theorem log_report (e : Event) (s : Reported σ) :
    ∃ t, (x.report e s).log = s.log ++ MarkerLog.entry (x.now t) e := by
  rw [report, Reporter.broadcast, List.foldl_map, reporters, List.zipIdx_append, List.foldl_append,
    List.zipIdx_cons, List.foldl_cons, log_foldl_noted]
  exact ⟨_, (log_markers x.now e _).1.trans (by rw [log_foldl_noted])⟩

end Session

/-! ### The whole run -/

/-- The first reporters received the events, and the log has one stamped line for each of them that
has a marker. -/
structure Reported.Faithful (s : Reported σ) (count : ℕ) (events : List Event)
    (entries : List (Instant × String)) : Prop where
  received : ∀ j < count, s.received j = events
  log : s.log = MarkerLog.logOf entries
  markers : entries.map Prod.snd = events.filterMap Event.marker?
  legible : ∀ x ∈ entries, MarkerLog.ShowsYear x.1 ∧ '\n' ∉ x.2.toList

theorem MarkerLog.entry_eq (t : Instant) (e : Event) :
    MarkerLog.entry t e = MarkerLog.logOf (e.marker?.toList.map (Prod.mk t)) := by
  rw [MarkerLog.entry]
  cases e.marker? with
  | none => rfl
  | some marker => simp [MarkerLog.logOf]

/-- A marker is on one line if the name of its task is. -/
theorem Event.newline_not_mem_marker {e : Event} {names : List String} (h : e.IsAbout names)
    (hnames : ∀ n ∈ names, '\n' ∉ n.toList) : ∀ marker ∈ e.marker?, '\n' ∉ marker.toList := by
  intro marker hmarker
  rw [e.marker?_eq] at hmarker
  obtain ⟨⟨kind, task⟩, hm, rfl⟩ := Option.map_eq_some_iff.mp hmarker
  have hname := hnames task (h ⟨kind, task⟩ hm)
  cases kind <;> simpa [Mark.text, MarkKind.word] using hname

variable {x : Session σ}

/-- A report keeps the log faithful. -/
theorem Reported.Faithful.report (hx : x.Legible) {e : Event}
    (he : e.IsAbout (x.tasks.map Task.name)) {s : Reported σ} {events : List Event}
    {entries : List (Instant × String)} (h : s.Faithful x.reporters.length events entries) :
    ∃ entries', (x.report e s).Faithful x.reporters.length (events ++ [e]) entries' := by
  obtain ⟨t, ht⟩ := x.log_report e s
  refine ⟨entries ++ e.marker?.toList.map (Prod.mk (x.now t)), ?_, ?_, ?_, ?_⟩
  · intro j hj
    rw [x.received_report e s hj, h.received j hj]
  · rw [ht, h.log, MarkerLog.entry_eq, MarkerLog.logOf, MarkerLog.logOf, MarkerLog.logOf,
      List.map_append, String.join_append]
  · rw [List.map_append, h.markers, List.filterMap_append]
    cases hmarker : e.marker? <;> simp [hmarker]
  · intro y hy
    rcases List.mem_append.mp hy with hy | hy
    · exact h.legible y hy
    · obtain ⟨marker, hmarker, rfl⟩ := List.mem_map.mp hy
      refine ⟨hx.years t, Event.newline_not_mem_marker he ?_ marker (by simpa using hmarker)⟩
      simpa using hx.names

/-- At the end of a run the log is faithful. -/
theorem Session.faithful_final (hx : x.Legible) :
    ∃ entries, x.final.Faithful x.reporters.length x.events entries := by
  have hall : ∃ events entries, x.final.Faithful x.reporters.length events entries := by
    have hnames : (x.tasks.map Task.onState).map Task.name = x.tasks.map Task.name := by
      rw [List.map_map]
      rfl
    refine run_keeps
      (I := fun s : Reported σ => ∃ events entries, s.Faithful x.reporters.length events entries)
      ?_ ?_ ⟨[], [], fun _ _ => rfl, rfl, rfl, by simp⟩
    · rintro e s he ⟨events, entries, h⟩
      rw [hnames] at he
      exact ⟨_, h.report hx he⟩
    · rintro task htask s ⟨events, entries, h⟩
      obtain ⟨task, -, rfl⟩ := List.mem_map.mp htask
      exact ⟨events, entries, h.received, h.log, h.markers, h.legible⟩
  obtain ⟨events, entries, h⟩ := hall
  have hevents : x.events = events := h.received _ (by rw [x.length_reporters]; omega)
  exact ⟨entries, hevents ▸ h⟩

end

/-- **The marker log is a faithful record of the run.**  All reporters receive the same events.  The
log has one line for each event with a marker, in order, each with a time stamp before it.  Read
back, the lines tell the kinds and the tasks of these events; so two runs write the same log, but
for the time stamps, only if those are the same. -/
theorem log_faithful {σ τ : Type} (x : Session σ) (y : Session τ) (hx : x.Legible)
    (hy : y.Legible) :
    (∀ j < x.reporters.length, x.final.received j = x.events) ∧
    (∃ entries : List (Instant × String),
      entries.map Prod.snd = x.events.filterMap Event.marker? ∧
      (∀ t ∈ entries, (MarkerLog.stamp t.1).length = 22) ∧
      x.final.log = String.join (entries.map fun t => MarkerLog.stamp t.1 ++ t.2 ++ "\n")) ∧
    MarkerLog.unstamped x.final.log = x.events.filterMap Event.marker? ∧
    (MarkerLog.unstamped x.final.log).map Mark.read? = (x.events.filterMap Event.mark?).map some ∧
    (MarkerLog.unstamped x.final.log = MarkerLog.unstamped y.final.log ↔
      x.events.filterMap Event.mark? = y.events.filterMap Event.mark?) := by
  have hlines : ∀ {ρ : Type} (z : Session ρ), z.Legible →
      MarkerLog.unstamped z.final.log = z.events.filterMap Event.marker? := by
    intro ρ z hz
    obtain ⟨entries, h⟩ := z.faithful_final hz
    rw [h.log, MarkerLog.unstamped_logOf h.legible, h.markers]
  have hread : ∀ events : List Event,
      (events.filterMap Event.marker?).map Mark.read? =
        (events.filterMap Event.mark?).map some := by
    intro events
    rw [Event.filterMap_marker?, List.map_map]
    exact List.map_congr_left fun m _ => m.read?_text
  obtain ⟨entries, h⟩ := x.faithful_final hx
  refine ⟨h.received, ⟨entries, h.markers, fun t ht => ?_, ?_⟩, hlines x hx, ?_, ?_⟩
  · exact MarkerLog.length_stamp (h.legible t ht).1
  · rw [h.log, MarkerLog.logOf]
    simp only [MarkerLog.line_eq]
  · rw [hlines x hx, hread]
  · rw [hlines x hx, hlines y hy]
    constructor
    · intro hsame
      have := congrArg (List.map Mark.read?) hsame
      rw [hread, hread] at this
      exact List.map_injective_iff.mpr (fun _ _ => Option.some.inj) this
    · intro hsame
      rw [Event.filterMap_marker?, Event.filterMap_marker?, hsame]

/-! ### A small gate -/

/-- A task that passes, one that is skipped and one that fails.  The names of the first two look
like lines of the log. -/
def smallSession : Session ℕ where
  tasks :=
    [⟨"END: a", ["x"], fun s => (.ok (), s + 1)⟩,
      ⟨"[1970-01-01 00:00:00] BEGIN: b", [], fun s => (.ok (), s)⟩,
      ⟨"c", ["x"], fun s => (.error (.error (.other "no")), s)⟩]
  selection := .ofList ["x"]
  before := [fun _ s => s + 1]
  after := [fun _ s => s]
  now := fun s => if s.log.isEmpty then ⟨0⟩ else ⟨86400000000000⟩
  start := 0

/-- The same gate without the last task. -/
def smallerSession : Session ℕ :=
  { smallSession with tasks := smallSession.tasks.take 2 }

theorem log_faithful_small :
    smallSession.Legible ∧ smallerSession.Legible ∧
      (MarkerLog.unstamped smallSession.final.log).map Mark.read? =
        [some ⟨.began, "END: a"⟩, some ⟨.ended, "END: a"⟩,
          some ⟨.skipped, "[1970-01-01 00:00:00] BEGIN: b"⟩, some ⟨.began, "c"⟩,
          some ⟨.failed, "c"⟩] ∧
      MarkerLog.unstamped smallSession.final.log ≠
        MarkerLog.unstamped smallerSession.final.log := by
  have hyears : ∀ s, MarkerLog.ShowsYear (smallSession.now s) := by
    intro s
    change MarkerLog.ShowsYear (if s.log.isEmpty then ⟨0⟩ else ⟨86400000000000⟩)
    split <;> decide
  have hsmall : smallSession.Legible := ⟨by decide, hyears⟩
  have hsmaller : smallerSession.Legible := ⟨by decide, hyears⟩
  obtain ⟨-, -, -, hread, hsame⟩ := log_faithful smallSession smallerSession hsmall hsmaller
  refine ⟨hsmall, hsmaller, hread.trans ?_, fun h => absurd (hsame.mp h) ?_⟩ <;> decide +kernel

end SuiteGate.Gate
