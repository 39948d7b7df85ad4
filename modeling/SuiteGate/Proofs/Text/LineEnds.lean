import SuiteGate.Proofs.Text.Occurrences
/-!
# Lines and their ends

A text consists of pieces that end in a line feed and a last one that does not (`exists_pieces`).
Its lines are these pieces without the carriage return in front of a line feed, so the lines with a
line feed behind each (`unlines`) are the text with other line ends (`unlines_linesOf`).  A text
without line ends stands in them exactly if it stands in one of the pieces
(`infix_unlines_linesOf_iff`).
-/

namespace SuiteGate.Text

variable {cs part line last : List Char} {pieces : List (List Char)} {n m : ℕ}

/-! ### Pieces -/

/-- The pieces one after the other, each with a line feed behind it. -/
def unlines (pieces : List (List Char)) : List Char :=
  pieces.flatMap (· ++ ['\n'])

@[simp]
theorem unlines_nil : unlines [] = [] := rfl

@[simp]
theorem unlines_cons (line : List Char) (pieces : List (List Char)) :
    unlines (line :: pieces) = line ++ '\n' :: unlines pieces := by
  simp [unlines]

theorem unlines_append (pieces more : List (List Char)) :
    unlines (pieces ++ more) = unlines pieces ++ unlines more :=
  List.flatMap_append

theorem intercalate_concat (pieces : List (List Char)) (last : List Char) :
    ['\n'].intercalate (pieces ++ [last]) = unlines pieces ++ last := by
  induction pieces with
  | nil => simp
  | cons line pieces ih =>
    rw [List.cons_append, List.intercalate_cons_of_ne_nil (by simp), ih, unlines_cons]
    simp

/-- **The pieces of a text.**  No piece holds a line feed, and only what is behind the last one is
no line if it is empty. -/
theorem exists_pieces (cs : List Char) :
    ∃ pieces last, cs = unlines pieces ++ last ∧ (∀ p ∈ pieces, '\n' ∉ p) ∧ '\n' ∉ last ∧
      splitChars '\n' cs = pieces ++ [last] ∧
      linesOf cs = pieces.map dropReturn ++ if last = [] then [] else [last] := by
  obtain ⟨pieces, last, hpieces⟩ : ∃ pieces last, splitChars '\n' cs = pieces ++ [last] :=
    ⟨_, _, (List.dropLast_append_getLast (splitChars_ne_nil '\n' cs)).symm⟩
  have hsep : ∀ p ∈ pieces ++ [last], '\n' ∉ p := fun p hp =>
    sep_not_mem_of_mem_splitChars (hpieces ▸ hp)
  refine ⟨pieces, last, ?_, fun p hp => hsep p (by simp [hp]), hsep last (by simp), hpieces, ?_⟩
  · rw [← intercalate_concat, ← hpieces, intercalate_splitChars]
  · simp [linesOf, hpieces]

/-! ### Exchanging line ends -/

/-- With enough steps, it does not matter how many there are. -/
theorem replaceChars_of_le {old new : List Char} (hn : cs.length ≤ n) (hm : cs.length ≤ m) :
    replaceChars old new n cs = replaceChars old new m cs := by
  induction n generalizing m cs with
  | zero =>
    obtain rfl := List.length_eq_zero_iff.mp (Nat.le_zero.mp hn)
    cases m <;> rfl
  | succ n ih =>
    cases cs with
    | nil => cases m <;> rfl
    | cons c cs =>
      rw [List.length_cons] at hn hm
      obtain ⟨m, rfl⟩ : ∃ k, m = k + 1 := ⟨m - 1, by omega⟩
      rw [replaceChars, replaceChars]
      split
      · next rest hrest =>
        -- what is left behind an occurrence is shorter, unless nothing occurred
        split
        · rfl
        · next hold =>
          have hlength := congrArg List.length (dropPrefix?_eq_some_iff.mp hrest)
          have hpos : 0 < old.length := List.length_pos_iff.mpr (by simpa using hold)
          rw [List.length_cons, List.length_append] at hlength
          rw [ih (m := m) (by omega) (by omega)]
      · rw [ih (m := m) (by omega) (by omega)]

/-- Exchanges the line ends with a carriage return for those without. -/
abbrev exchangeEnds (n : ℕ) (cs : List Char) : List Char :=
  replaceChars ['\r', '\n'] ['\n'] n cs

theorem exchangeEnds_of_le (hn : cs.length ≤ n) (hm : cs.length ≤ m) :
    exchangeEnds n cs = exchangeEnds m cs :=
  replaceChars_of_le hn hm

theorem exchangeEnds_cons {c : Char} (h : ¬ ['\r', '\n'] <+: c :: cs) :
    exchangeEnds (n + 1) (c :: cs) = c :: exchangeEnds n cs := by
  have hnone : dropPrefix? ['\r', '\n'] (c :: cs) = none := by
    rw [Option.eq_none_iff_forall_ne_some]
    intro rest hrest
    exact h ⟨rest, (dropPrefix?_eq_some_iff.mp hrest).symm⟩
  rw [exchangeEnds, replaceChars, hnone]

theorem exchangeEnds_return :
    exchangeEnds (n + 1) ('\r' :: '\n' :: cs) = '\n' :: exchangeEnds n cs := by
  rw [exchangeEnds, replaceChars]
  rfl

theorem dropReturn_cons {c : Char} (h : ¬ (c = '\r' ∧ line = [])) :
    dropReturn (c :: line) = c :: dropReturn line := by
  cases line with
  | nil => simpa [dropReturn] using h
  | cons d line =>
    rw [dropReturn, dropReturn, List.getLast?_cons_cons, List.dropLast_cons_cons]
    split
    · rfl
    · rfl

/-- The carriage return in front of a line feed is dropped. -/
theorem exchangeEnds_line (hline : '\n' ∉ line) (hn : (line ++ '\n' :: cs).length ≤ n) :
    exchangeEnds n (line ++ '\n' :: cs) = dropReturn line ++ '\n' :: exchangeEnds n cs := by
  induction line generalizing n with
  | nil =>
    rw [List.nil_append, List.length_cons] at hn
    obtain ⟨n, rfl⟩ : ∃ k, n = k + 1 := ⟨n - 1, by omega⟩
    rw [List.nil_append, exchangeEnds_cons (by simp),
      exchangeEnds_of_le (m := n + 1) (by omega) (by omega)]
    rfl
  | cons c line ih =>
    rw [List.cons_append, List.length_cons, List.length_append, List.length_cons] at hn
    obtain ⟨n, rfl⟩ : ∃ k, n = k + 1 := ⟨n - 1, by omega⟩
    have hsteps : exchangeEnds (n + 1) cs = exchangeEnds n cs :=
      exchangeEnds_of_le (by omega) (by omega)
    rw [hsteps]
    -- only a carriage return that ends the line is one of a line end
    by_cases hend : c = '\r' ∧ line = []
    · obtain ⟨rfl, rfl⟩ := hend
      exact exchangeEnds_return
    · have hfirst : ¬ ['\r', '\n'] <+: c :: (line ++ '\n' :: cs) := by
        rintro ⟨rest, hfront⟩
        obtain ⟨hc, hbehind⟩ := List.cons.inj hfront
        cases line with
        | nil => exact hend ⟨hc.symm, rfl⟩
        | cons d line =>
          obtain ⟨rfl, -⟩ := List.cons.inj hbehind
          exact hline (by simp)
      have hrest := ih (n := n) (fun h => hline (List.mem_cons_of_mem c h))
        (by rw [List.length_append, List.length_cons]; omega)
      rw [List.cons_append]
      refine (exchangeEnds_cons hfirst).trans ?_
      rw [hrest, dropReturn_cons hend, List.cons_append]

theorem exchangeEnds_of_not_mem (h : '\n' ∉ last) : exchangeEnds n last = last := by
  induction n generalizing last with
  | zero => rfl
  | succ n ih =>
    cases last with
    | nil => rfl
    | cons c last =>
      have hends : ¬ ['\r', '\n'] <+: c :: last :=
        fun hfront => h (hfront.subset (by simp))
      rw [exchangeEnds_cons hends, ih fun hmem => h (List.mem_cons_of_mem c hmem)]

theorem exchangeEnds_unlines (hpieces : ∀ p ∈ pieces, '\n' ∉ p) (hlast : '\n' ∉ last)
    (hn : (unlines pieces ++ last).length ≤ n) :
    exchangeEnds n (unlines pieces ++ last) = unlines (pieces.map dropReturn) ++ last := by
  induction pieces with
  | nil => exact exchangeEnds_of_not_mem hlast
  | cons line pieces ih =>
    obtain ⟨hline, hpieces⟩ := List.forall_mem_cons.mp hpieces
    rw [unlines_cons, List.append_assoc, List.cons_append] at hn ⊢
    rw [exchangeEnds_line hline hn, ih hpieces, List.map_cons, unlines_cons, List.append_assoc,
      List.cons_append]
    rw [List.length_append, List.length_cons] at hn
    omega

/-- A text ends in a line feed, or is empty, exactly if nothing is behind its last piece. -/
theorem concat_suffix_iff (hlast : '\n' ∉ last) :
    (unlines pieces ++ last = [] ∨ ['\n'] <:+ unlines pieces ++ last) ↔ last = [] := by
  constructor
  · rintro (hnil | hsuffix)
    · exact (List.append_eq_nil_iff.mp hnil).2
    · by_contra hne
      -- otherwise the last character would be one of the last piece
      obtain ⟨front, hfront⟩ := hsuffix
      have hend := congrArg List.getLast? hfront
      rw [List.getLast?_append_of_ne_nil _ hne, List.getLast?_concat] at hend
      exact hlast (List.mem_of_getLast? hend.symm)
  · rintro rfl
    rw [List.append_nil]
    rcases List.eq_nil_or_concat pieces with rfl | ⟨init, line, rfl⟩
    · exact .inl rfl
    · right
      rw [List.concat_eq_append, unlines_append, unlines_cons, unlines_nil]
      exact ⟨unlines init ++ line, by simp⟩

/-- **The lines of a text,** each with a line feed behind it, are the text with its line ends
exchanged, and with one more at the end if it has none there. -/
theorem unlines_linesOf (cs : List Char) :
    unlines (linesOf cs) = exchangeEnds (cs.length + 1) cs ++
      if cs = [] ∨ ['\n'] <:+ cs then [] else ['\n'] := by
  obtain ⟨pieces, last, htext, hpieces, hlast, -, hlines⟩ := exists_pieces cs
  have hends : (cs = [] ∨ ['\n'] <:+ cs) ↔ last = [] := by
    rw [htext]
    exact concat_suffix_iff hlast
  rw [hlines, unlines_append]
  simp only [hends]
  rw [htext, exchangeEnds_unlines hpieces hlast (Nat.le_succ _)]
  by_cases hnil : last = []
  · simp [hnil]
  · simp [hnil]

/-! ### Texts in lines -/

/-- What holds no line feed stands in lines and a text behind them if it stands in one of them. -/
theorem infix_unlines_append_iff (h : '\n' ∉ part) :
    part <:+: unlines pieces ++ last ↔ (∃ p ∈ pieces, part <:+: p) ∨ part <:+: last := by
  induction pieces with
  | nil => simp
  | cons line pieces ih =>
    rw [unlines_cons, List.append_assoc, List.cons_append, infix_append_sep_iff h, ih,
      List.exists_mem_cons_iff, or_assoc]

theorem infix_dropReturn_iff (h : '\r' ∉ part) : part <:+: dropReturn line ↔ part <:+: line := by
  rw [dropReturn]
  split
  · next hlast =>
    obtain ⟨init, rfl⟩ := List.getLast?_eq_some_iff.mp hlast
    rw [List.dropLast_concat, infix_append_sep_iff h]
    exact (or_iff_left_of_imp fun hnil => hnil.trans List.nil_infix).symm
  · exact Iff.rfl

/-- **What stands in the lines of a text** or in a text behind them, and holds no line end, stands
in one of the pieces between line feeds or in the text behind. -/
theorem infix_unlines_linesOf_iff (hn : '\n' ∉ part) (hr : '\r' ∉ part) {more : List Char} :
    part <:+: unlines (linesOf cs) ++ more ↔
      (∃ p ∈ splitChars '\n' cs, part <:+: p) ∨ part <:+: more := by
  obtain ⟨pieces, last, -, -, -, hsplit, hlines⟩ := exists_pieces cs
  rw [infix_unlines_append_iff hn, hsplit, hlines]
  simp only [List.mem_append, List.mem_map, List.mem_singleton, or_and_right, exists_or,
    exists_eq_left, exists_exists_and_eq_and, infix_dropReturn_iff hr]
  by_cases hlast : last = []
  · -- an empty piece is no line, and only the empty text stands in it
    have hempty : part <:+: last → part <:+: more := by
      rw [hlast]
      exact fun hnil => hnil.trans List.nil_infix
    simp only [hlast, if_true, List.not_mem_nil, false_and, exists_false, or_false] at hempty ⊢
    grind
  · simp [hlast]

end SuiteGate.Text
