import SuiteGate.GraalVm.Checks
import SuiteGate.Host.Runner
import SuiteGate.Proofs.Operations
import SuiteGate.Proofs.Text.LineEnds
/-!
# Checks of what a program writes

The output of a program is kept in one of two ways: as a whole, or line by line while it is shown.
The second way exchanges line ends and adds a last one (`asLines_eq`), which is not seen by a text
that holds no line end (`contains_asLines_append_iff`).  As the lines end in a line feed, such a
text does not reach from the results of a program into its messages either.

The headline is `runExpecting_spec`: a check of the output succeeds exactly if the program does and
each text stands in one line of the results or in the messages, whatever the program is.
-/

namespace SuiteGate

namespace Host

/-! ### Lines of results -/

theorem toList_asLines (s : String) :
    (asLines s).toList = Text.unlines (Text.linesOf s.toList) := by
  rw [asLines, String.toList_join, Text.lines, List.map_map, List.flatMap_map, Text.unlines]
  refine List.flatMap_congr fun line _ => ?_
  simp

/-- **Results that are read line by line** have their line ends exchanged, and one at the end. -/
theorem asLines_eq (s : String) :
    asLines s = Text.replace s "\r\n" "\n" ++
      if s = "" ∨ Text.endsWith s "\n" = true then "" else "\n" := by
  have hends : (s.toList = [] ∨ ['\n'] <:+ s.toList) ↔ s = "" ∨ Text.endsWith s "\n" = true := by
    rw [Text.endsWith, List.isSuffixOf_iff_suffix, String.toList_eq_nil_iff]
    rfl
  rw [← String.toList_inj, toList_asLines, Text.unlines_linesOf, String.toList_append, Text.replace,
    String.toList_ofList, String.length_toList]
  simp only [hends]
  congr 1
  split
  · rfl
  · rfl

example : asLines "a\r\nb\r" = "a\nb\r\n" := by decide +kernel

section

variable {s t messages : String}

/-- A text holds no line end. -/
def OneLine (t : String) : Prop :=
  '\n' ∉ t.toList ∧ '\r' ∉ t.toList

instance : DecidablePred OneLine := fun _ => inferInstanceAs (Decidable (_ ∧ _))

/-- **A text without line ends** stands in the lines of the results or in the messages behind them
exactly if it stands in a single line or in the messages. -/
theorem contains_asLines_append_iff (ht : OneLine t) :
    Text.contains (asLines s ++ messages) t = true ↔
      (∃ line ∈ Text.split '\n' s, Text.contains line t = true) ∨
        Text.contains messages t = true := by
  simp only [Text.contains, Text.occursIn_iff, String.toList_append, toList_asLines,
    Text.infix_unlines_linesOf_iff ht.1 ht.2, Text.split, List.mem_map, exists_exists_and_eq_and,
    String.toList_ofList]

/-- Such a text is in the results line by line exactly if it is in them. -/
theorem contains_asLines_iff (ht : OneLine t) :
    Text.contains (asLines s) t = Text.contains s t := by
  rw [Bool.eq_iff_iff]
  simp only [Text.contains, Text.occursIn_iff, toList_asLines]
  rw [← List.append_nil (Text.unlines _), Text.infix_unlines_linesOf_iff ht.1 ht.2,
    ← Text.infix_iff_exists_field ht.1]
  -- nothing stands behind the lines, and the empty text stands everywhere
  exact or_iff_left_of_imp fun hnil => hnil.trans List.nil_infix

end

/-! ### Programs that are started -/

/-- The output of a program that is kept line by line. -/
def teedOutput (f : Finish) (s : String) : ToolOutput :=
  ⟨f.ending.code?, asLines s, Text.decodeLossy (f.stream err)⟩

/-- The output of a program that is kept as a whole. -/
def capturedOutput (f : Finish) (s : String) : ToolOutput :=
  ⟨f.ending.code?, s, Text.decodeLossy (f.stream err)⟩

section

variable {start : Invocation → World → Except IoError Finish} {i : Invocation} {w : World}
  {f : Finish} {s : String}

theorem outcome_of_tee (hs : Text.decode? (f.stream out) = some s) :
    (replyOf .tee f).outcome = .ok (teedOutput f s) := by
  simp only [replyOf, hs]
  rfl

theorem outcome_of_capture (hs : Text.decode? (f.stream out) = some s) :
    (replyOf .capture f).outcome = .ok (capturedOutput f s) := by
  simp only [replyOf, Text.decodeLossy, hs]
  rfl

theorem runnerWith_eq (hstart : start i w = .ok f) :
    runnerWith start i w = replyOf i.output f := by
  rw [runnerWith, hstart]

theorem code?_eq_some_zero_iff {e : Ending} : e.code? = some 0 ↔ e = .code 0 := by
  cases e with
  | code n => simp [Ending.code?]
  | signal n => simp [Ending.code?]

end

end Host

namespace GraalVm

open Host

theorem run_expectTexts {i : Invocation} {output : ToolOutput} {texts : List String} {w : World} :
    ((texts.forM (expectText i output)).run.run w).1 = .ok () ↔
      ∀ t ∈ texts, Text.contains output.combined t = true := by
  induction texts with
  | nil => exact ⟨fun _ => by simp, fun _ => rfl⟩
  | cons t texts ih =>
    rw [Op.run_forM_cons, List.forall_mem_cons, ← ih, expectText]
    by_cases h : Text.contains output.combined t = true
    · rw [if_pos h, and_iff_right h, Op.run_pure]
    · rw [if_neg h, Op.run_fail]
      simp [h]

/-- A check of the output succeeds if the program does and its output holds each text. -/
theorem run_runExpecting {runner : Runner} {i : Invocation} {texts : List String} {w : World} :
    ((runExpecting runner i texts).run.run w).1 = .ok () ↔
      ∃ output, runner.answer i.teed w = .ok output ∧
        ∀ t ∈ texts, Text.contains output.combined t = true := by
  rw [runExpecting, Op.run_bind, Runner.run_runChecked]
  cases hanswer : runner.answer i.teed w with
  | error e => simp [Except.mapError]
  | ok output =>
    simp only [Except.mapError, Except.ok.injEq, exists_eq_left']
    exact run_expectTexts

/-- **Checks of what a program writes are exact.**  Whatever the program is and however it is
started, if it writes text then a check for texts without line ends succeeds exactly if the program
ends with exit code zero and each of them stands in one line of the results or in the messages.  For
such a text it does not matter whether the results are kept line by line or as a whole, and the
first way differs from the second one only in the line ends. -/
theorem runExpecting_spec (start : Invocation → World → Except IoError Finish) (i : Invocation)
    (texts : List String) (w : World) (f : Finish) (s : String)
    (htexts : ∀ t ∈ texts, OneLine t) (hstart : start i.teed w = .ok f)
    (hs : Text.decode? (f.stream out) = some s) :
    (((runExpecting (runnerWith start) i texts).run.run w).1 = .ok () ↔
      f.ending = .code 0 ∧ ∀ t ∈ texts,
        (∃ line ∈ Text.split '\n' s, Text.contains line t = true) ∨
          Text.contains (Text.decodeLossy (f.stream err)) t = true) ∧
    ∃ teed captured, (replyOf .tee f).outcome = .ok teed ∧
      (replyOf .capture f).outcome = .ok captured ∧ captured.stdout = s ∧
      (∀ t, OneLine t → Text.contains teed.stdout t = Text.contains captured.stdout t) ∧
      teed.stdout = Text.replace captured.stdout "\r\n" "\n" ++
        if captured.stdout = "" ∨ Text.endsWith captured.stdout "\n" = true then "" else "\n" := by
  have hreply : (runnerWith start i.teed w).outcome = .ok (teedOutput f s) := by
    rw [runnerWith_eq hstart]
    exact outcome_of_tee hs
  refine ⟨?_, teedOutput f s, capturedOutput f s, outcome_of_tee hs, outcome_of_capture hs, rfl,
    fun t ht => contains_asLines_iff ht, asLines_eq s⟩
  -- each text is looked for in the lines of the results with the messages behind them
  have hcombined : ∀ t ∈ texts, Text.contains (teedOutput f s).combined t = true ↔
      (∃ line ∈ Text.split '\n' s, Text.contains line t = true) ∨
        Text.contains (Text.decodeLossy (f.stream err)) t = true :=
    fun t ht => contains_asLines_append_iff (htexts t ht)
  rw [run_runExpecting, ← code?_eq_some_zero_iff]
  constructor
  · rintro ⟨output, hanswer, hall⟩
    obtain ⟨houtcome, hcode⟩ := Runner.answer_eq_ok_iff.mp hanswer
    obtain rfl : teedOutput f s = output := Except.ok.inj (hreply.symm.trans houtcome)
    exact ⟨hcode, fun t ht => (hcombined t ht).mp (hall t ht)⟩
  · rintro ⟨hcode, hall⟩
    exact ⟨teedOutput f s, Runner.answer_eq_ok_iff.mpr ⟨hreply, hcode⟩,
      fun t ht => (hcombined t ht).mpr (hall t ht)⟩

/-- What a program leaves that writes two lines, the second one without an end, and a message. -/
def twoLines : Finish :=
  ⟨Disk.empty ⟨10⟩, .code 0, [],
    [(out, "abc\r\nxyz".toUTF8.toList), (err, "!".toUTF8.toList)]⟩

/-- Texts in both lines are found, and one that reaches from the results into the messages is
not. -/
theorem runExpecting_spec_lines :
    let runs (texts : List String) := (runExpecting (runnerWith fun _ _ => .ok twoLines)
      (Invocation.of "p") texts).run.run (World.start (Disk.empty ⟨10⟩) [] ⟨"/tmp"⟩ ∅)
    (runs ["abc", "xyz"]).1 = .ok () ∧ (runs ["z!"]).1 ≠ .ok () := by
  have hs : Text.decode? (twoLines.stream out) = some "abc\r\nxyz" := by decide +kernel
  have hlines : (∀ t ∈ ["abc", "xyz"], OneLine t) ∧ ∀ t ∈ ["z!"], OneLine t := by decide +kernel
  have hfound : ∀ t ∈ ["abc", "xyz"], ∃ line ∈ Text.split '\n' "abc\r\nxyz",
      Text.contains line t = true := by
    decide +kernel
  have hlost : (∀ line ∈ Text.split '\n' "abc\r\nxyz", Text.contains line "z!" = false) ∧
      Text.contains (Text.decodeLossy (twoLines.stream err)) "z!" = false := by
    decide +kernel
  refine ⟨(runExpecting_spec _ _ _ _ twoLines _ hlines.1 rfl hs).1.mpr
    ⟨rfl, fun t ht => .inl (hfound t ht)⟩, fun hok => ?_⟩
  obtain ⟨-, hall⟩ := (runExpecting_spec _ _ _ _ twoLines _ hlines.2 rfl hs).1.mp hok
  obtain ⟨line, hline, hcontains⟩ | hcontains := hall "z!" (by simp)
  · simp [hlost.1 line hline] at hcontains
  · simp [hlost.2] at hcontains

end GraalVm

end SuiteGate
