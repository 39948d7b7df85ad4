import Mathlib.Data.List.Basic
import Mathlib.Data.List.TakeWhile
import Mathlib.Tactic.Common
import SuiteGate.Text.Blank
import SuiteGate.Text.Lines
/-!
# Fields and the blanks around them

A text with separators is cut into fields, which put together give the text back.  Here is the
other direction, that fields which hold no separator are found again (`splitChars_intercalate`),
and what is left of a field when the blanks around it are cut off: nothing if it is blank
(`trimChars_eq_nil_iff`), all of it if it neither starts nor ends in a blank (`trimChars_eq_self`).
-/

namespace SuiteGate.Text

/-! ### Cutting at separators -/

section

variable {sep : Char}

/-- A text is cut at a separator, and its parts on their own. -/
theorem splitChars_append (sep : Char) (a b : List Char) :
    splitChars sep (a ++ sep :: b) = splitChars sep a ++ splitChars sep b := by
  induction a with
  | nil => simp [splitChars]
  | cons c a ih =>
    rw [List.cons_append, splitChars, splitChars]
    by_cases hc : c = sep
    · rw [if_pos hc, if_pos hc, ih, List.cons_append]
    · rw [if_neg hc, if_neg hc, ih]
      cases hs : splitChars sep a with
      | nil => exact absurd hs (splitChars_ne_nil sep a)
      | cons p ps => rfl

theorem splitChars_of_not_mem {cs : List Char} (h : sep ∉ cs) : splitChars sep cs = [cs] := by
  induction cs with
  | nil => rfl
  | cons c cs ih =>
    obtain ⟨hc, hcs⟩ := not_or.mp (mt List.mem_cons.mpr h)
    rw [splitChars, if_neg (Ne.symm hc), ih hcs]

/-- What stands before a text, without a separator, belongs to its first field. -/
theorem splitChars_append_left {xs : List Char} (h : sep ∉ xs) (cs : List Char) :
    ∃ first rest, splitChars sep cs = first :: rest ∧
      splitChars sep (xs ++ cs) = (xs ++ first) :: rest := by
  obtain ⟨first, rest, hcs⟩ := List.exists_cons_of_ne_nil (splitChars_ne_nil sep cs)
  refine ⟨first, rest, hcs, ?_⟩
  induction xs with
  | nil => exact hcs
  | cons x xs ih =>
    obtain ⟨hx, hxs⟩ := not_or.mp (mt List.mem_cons.mpr h)
    rw [List.cons_append, splitChars, if_neg (Ne.symm hx), ih hxs, List.cons_append]

/-- What stands after a text, without a separator, belongs to its last field. -/
theorem splitChars_append_right {ys : List Char} (h : sep ∉ ys) (cs : List Char) :
    ∃ init last, splitChars sep cs = init ++ [last] ∧
      splitChars sep (cs ++ ys) = init ++ [last ++ ys] := by
  induction cs with
  | nil => exact ⟨[], [], rfl, splitChars_of_not_mem h⟩
  | cons c cs ih =>
    obtain ⟨init, last, hcs, happ⟩ := ih
    rw [List.cons_append, splitChars, splitChars]
    by_cases hc : c = sep
    · rw [if_pos hc, if_pos hc, hcs, happ]
      exact ⟨[] :: init, last, rfl, rfl⟩
    · rw [if_neg hc, if_neg hc, hcs, happ]
      cases init with
      | nil => exact ⟨[], c :: last, rfl, rfl⟩
      | cons p init => exact ⟨(c :: p) :: init, last, rfl, rfl⟩

/-- Fields are put together part by part. -/
theorem intercalate_append {ps qs : List (List Char)} (hp : ps ≠ []) (hq : qs ≠ []) :
    [sep].intercalate (ps ++ qs) = [sep].intercalate ps ++ sep :: [sep].intercalate qs := by
  induction ps with
  | nil => exact absurd rfl hp
  | cons p ps ih =>
    cases ps with
    | nil =>
      rw [List.singleton_append, List.intercalate_cons_of_ne_nil hq, List.intercalate_singleton,
        List.append_assoc, List.singleton_append]
    | cons r ps =>
      rw [List.cons_append, List.cons_append, List.intercalate_cons_cons, ← List.cons_append,
        ih (List.cons_ne_nil r ps), List.intercalate_cons_cons, List.append_assoc _ _ (_ :: _)]

theorem length_le_of_mem_intercalate {p : List Char} {ps : List (List Char)} (h : p ∈ ps) :
    p.length ≤ ([sep].intercalate ps).length := by
  obtain ⟨before, after, rfl⟩ := List.append_of_mem h
  have hafter : p.length ≤ ([sep].intercalate (p :: after)).length := by
    cases after with
    | nil => rw [List.intercalate_singleton]
    | cons q after => rw [List.intercalate_cons_cons]; simp
  cases before with
  | nil => exact hafter
  | cons q before =>
    rw [intercalate_append (List.cons_ne_nil q before) (List.cons_ne_nil p after),
      List.length_append, List.length_cons]
    omega

/-- **Fields that were put together are found again.** -/
theorem splitChars_intercalate {ps : List (List Char)} (h : ∀ p ∈ ps, sep ∉ p) (hne : ps ≠ []) :
    splitChars sep ([sep].intercalate ps) = ps := by
  induction ps with
  | nil => exact absurd rfl hne
  | cons p ps ih =>
    have hp : sep ∉ p := h p (List.mem_cons_self ..)
    cases ps with
    | nil => rw [List.intercalate_singleton, splitChars_of_not_mem hp]
    | cons q ps =>
      have hrest := ih (fun r hr => h r (List.mem_cons_of_mem p hr)) (List.cons_ne_nil q ps)
      rw [List.intercalate_cons_cons, List.append_assoc, List.singleton_append,
        splitChars_append, hrest, splitChars_of_not_mem hp, List.singleton_append]

/-- A character is in a text if it is in a field, or is a separator between two. -/
theorem mem_iff_mem_splitChars {cs : List Char} {c : Char} (hc : c ≠ sep) :
    c ∈ cs ↔ ∃ p ∈ splitChars sep cs, c ∈ p := by
  induction cs with
  | nil => simp [splitChars]
  | cons d cs ih =>
    rw [splitChars, List.mem_cons, ih]
    by_cases hd : d = sep
    · simp [hd, hc]
    · rw [if_neg hd]
      cases hs : splitChars sep cs with
      | nil => exact absurd hs (splitChars_ne_nil sep cs)
      | cons p ps => simp [or_assoc]

/-- A text is cut at a separator, and its parts on their own. -/
theorem split_append (sep : Char) (a b : String) :
    split sep (a ++ String.singleton sep ++ b) = split sep a ++ split sep b := by
  simp only [split, String.toList_append, String.toList_singleton, List.append_assoc,
    List.singleton_append]
  rw [splitChars_append, List.map_append]

/-- Fields that were put together are found again. -/
theorem split_join {parts : List String} (h : ∀ p ∈ parts, sep ∉ p.toList) (hne : parts ≠ []) :
    split sep (join (String.singleton sep) parts) = parts := by
  have hchars : ∀ p ∈ parts.map String.toList, sep ∉ p := by
    intro p hp
    obtain ⟨part, hpart, rfl⟩ := List.mem_map.mp hp
    exact h part hpart
  rw [split, join, String.toList_intercalate, String.toList_singleton,
    splitChars_intercalate hchars (by simpa using hne), List.map_map]
  simp

end

/-! ### Cutting off blanks -/

section

variable {cs : List Char}

theorem trimEndChars_isPrefix (cs : List Char) : trimEndChars cs <+: cs := by
  rw [trimEndChars, ← List.reverse_suffix, List.reverse_reverse]
  exact List.dropWhile_suffix _

theorem trimEndChars_eq_nil_iff : trimEndChars cs = [] ↔ ∀ c ∈ cs, isBlank c = true := by
  simp [trimEndChars, List.dropWhile_eq_nil_iff]

theorem trimEndChars_eq_self (h : ∀ c ∈ cs.getLast?, isBlank c = false) :
    trimEndChars cs = cs := by
  cases hrev : cs.reverse with
  | nil => rw [trimEndChars, hrev, ← hrev, List.reverse_eq_nil_iff.mp hrev]; rfl
  | cons c rest =>
    have hlast : cs.getLast? = some c := by rw [← List.head?_reverse, hrev, List.head?_cons]
    rw [trimEndChars, hrev, List.dropWhile_cons_of_neg (by simp [h c hlast]), ← hrev,
      List.reverse_reverse]

/-- **Nothing is left of what is blank,** and of nothing else. -/
theorem trimChars_eq_nil_iff : trimChars cs = [] ↔ ∀ c ∈ cs, isBlank c = true := by
  rw [trimChars, trimEndChars_eq_nil_iff, trimStartChars]
  constructor
  · intro h c hc
    rw [← List.takeWhile_append_dropWhile (p := isBlank) (l := cs)] at hc
    rcases List.mem_append.mp hc with hc | hc
    · exact List.mem_takeWhile_imp hc
    · exact h c hc
  · intro h c hc
    exact h c ((List.dropWhile_sublist _).subset hc)

/-- **A trimmed list does not start with white space.** -/
theorem head?_trimChars {c : Char} (h : c ∈ (trimChars cs).head?) : isBlank c = false := by
  obtain ⟨rest, hrest⟩ : trimChars cs <+: trimStartChars cs := trimEndChars_isPrefix _
  refine head?_dropWhile_isBlank cs (c := c) ?_
  rw [← trimStartChars, ← hrest, List.head?_append, Option.mem_def.mp h, Option.some_or]

theorem getLast?_trimChars {c : Char} (h : c ∈ (trimChars cs).getLast?) : isBlank c = false :=
  getLast?_trimEndChars _ h

/-- A list that neither starts nor ends with white space is not changed. -/
theorem trimChars_eq_self (hhead : ∀ c ∈ cs.head?, isBlank c = false)
    (hlast : ∀ c ∈ cs.getLast?, isBlank c = false) : trimChars cs = cs := by
  have hstart : trimStartChars cs = cs := by
    cases cs with
    | nil => rfl
    | cons c cs =>
      have hc : isBlank c = false := hhead c rfl
      rw [trimStartChars, List.dropWhile_cons_of_neg (by simp [hc])]
  rw [trimChars, hstart, trimEndChars_eq_self hlast]

theorem trimChars_append_left {xs : List Char} (h : ∀ c ∈ xs, isBlank c = true)
    (cs : List Char) : trimChars (xs ++ cs) = trimChars cs := by
  rw [trimChars, trimChars, trimStartChars, List.dropWhile_append_of_pos h, trimStartChars]

theorem trimEndChars_append_right {ys : List Char} (h : ∀ c ∈ ys, isBlank c = true)
    (cs : List Char) : trimEndChars (cs ++ ys) = trimEndChars cs := by
  have hrev : ∀ c ∈ ys.reverse, isBlank c = true := fun c hc => h c (List.mem_reverse.mp hc)
  rw [trimEndChars, List.reverse_append, List.dropWhile_append_of_pos hrev, trimEndChars]

theorem trimChars_append_right {ys : List Char} (h : ∀ c ∈ ys, isBlank c = true)
    (cs : List Char) : trimChars (cs ++ ys) = trimChars cs := by
  rw [trimChars, trimChars, trimStartChars, List.dropWhile_append]
  split
  · next hblank =>
    -- nothing but blanks: nothing is left on either side
    rw [List.isEmpty_iff, List.dropWhile_eq_nil_iff] at hblank
    rw [List.dropWhile_eq_nil_iff.mpr h, trimStartChars, List.dropWhile_eq_nil_iff.mpr hblank]
  · rw [trimEndChars_append_right h, trimStartChars]

/-- What is left of a field was in it. -/
theorem trimChars_subset (cs : List Char) : trimChars cs ⊆ cs :=
  List.Subset.trans (trimEndChars_isPrefix _).subset (List.dropWhile_sublist _).subset

end

end SuiteGate.Text
