import Mathlib.Data.List.Infix
import Mathlib.Tactic.Common
import SuiteGate.Proofs.Text.Fields
/-!
# Texts between separators

A text that holds no separator does not reach across one.  So it ends a text exactly if it ends the
last field (`suffix_append_sep_iff`), and it stands in a text exactly if it stands in one of the
fields (`infix_iff_exists_field`).
-/

namespace SuiteGate.Text

variable {sep : Char} {part a b cs : List Char}

/-- What ends a text and holds no separator ends what stands behind one. -/
theorem suffix_append_sep_iff (h : sep ∉ part) : part <:+ a ++ sep :: b ↔ part <:+ b := by
  have hb : b <:+ a ++ sep :: b := ⟨a ++ [sep], by simp⟩
  constructor
  · intro hsuffix
    rcases List.suffix_or_suffix_of_suffix hsuffix hb with hle | ⟨more, rfl⟩
    · exact hle
    · -- the last character in front of the shorter one would be the separator
      rcases List.eq_nil_or_concat more with rfl | ⟨init, c, rfl⟩
      · exact List.suffix_rfl
      · obtain ⟨front, hfront⟩ := hsuffix
        have hsame : (front ++ init) ++ c :: b = a ++ sep :: b := by simpa using hfront
        obtain ⟨rfl, -⟩ := List.cons.inj (List.append_inj' hsame rfl).2
        exact absurd (by simp) h
  · intro hsuffix
    exact hsuffix.trans hb

/-- What stands in a text and holds no separator stands in front of one or behind it. -/
theorem infix_append_sep_iff (h : sep ∉ part) :
    part <:+: a ++ sep :: b ↔ part <:+: a ∨ part <:+: b := by
  constructor
  · rintro ⟨s, t, hst⟩
    obtain ⟨m, rfl, -⟩ | ⟨m, hm, hrest⟩ := List.append_eq_append_iff.mp hst
    · exact .inl ⟨s, m, rfl⟩
    · cases m with
      | nil => exact .inl ⟨s, [], by simpa using hm⟩
      | cons c m =>
        -- it ends behind the separator, so it begins there, too
        obtain ⟨rfl, rfl⟩ := List.cons.inj hrest
        have hsuffix : part <:+ m := (suffix_append_sep_iff h).mp ⟨s, hm⟩
        exact .inr (hsuffix.isInfix.trans (List.prefix_append m t).isInfix)
  · rintro (hleft | hright)
    · exact hleft.trans (List.prefix_append a _).isInfix
    · exact hright.trans ⟨a ++ [sep], [], by simp⟩

/-- What stands in fields with separators between them stands in one of the fields. -/
theorem infix_intercalate_iff (h : sep ∉ part) {ps : List (List Char)} (hne : ps ≠ []) :
    part <:+: [sep].intercalate ps ↔ ∃ p ∈ ps, part <:+: p := by
  induction ps with
  | nil => exact absurd rfl hne
  | cons p ps ih =>
    cases ps with
    | nil => simp
    | cons q ps =>
      have hsplit : [sep].intercalate (p :: q :: ps) = p ++ sep :: [sep].intercalate (q :: ps) := by
        simp [List.intercalate_cons_cons]
      rw [hsplit, infix_append_sep_iff h, ih (List.cons_ne_nil q ps)]
      simp only [List.exists_mem_cons_iff]

/-- **What stands in a text** and holds no separator stands in one of its fields. -/
theorem infix_iff_exists_field (h : sep ∉ part) :
    part <:+: cs ↔ ∃ p ∈ splitChars sep cs, part <:+: p := by
  rw [← infix_intercalate_iff h (splitChars_ne_nil sep cs), intercalate_splitChars]

/-! ### Across one separator -/

/-- What starts a text and holds no separator starts what stands in front of one. -/
theorem prefix_append_sep_iff (h : sep ∉ part) : part <+: a ++ sep :: b ↔ part <+: a := by
  constructor
  · rintro ⟨t, ht⟩
    obtain ⟨m, rfl, -⟩ | ⟨m, rfl, hrest⟩ := List.append_eq_append_iff.mp ht
    · exact List.prefix_append part m
    · cases m with
      | nil => rw [List.append_nil]
      | cons c m =>
        -- it would hold the separator
        obtain ⟨rfl, -⟩ := List.cons.inj hrest
        exact absurd (by simp) h
  · intro hprefix
    exact hprefix.trans (List.prefix_append a _)

/-- A text with one separator stands where the first separator is, or behind it. -/
theorem infix_append_sep_pair_iff {p rest : List Char} (ha : sep ∉ a) (hp : sep ∉ p) :
    a ++ sep :: b <:+: p ++ sep :: rest ↔
      (a <:+ p ∧ b <+: rest) ∨ a ++ sep :: b <:+: rest := by
  constructor
  · rintro ⟨s, t, hst⟩
    have hcut : (s ++ a) ++ sep :: (b ++ t) = p ++ sep :: rest := by simpa using hst
    obtain ⟨m, rfl, hrest⟩ | ⟨m, hm, hrest⟩ := List.append_eq_append_iff.mp hcut
    · cases m with
      | nil => exact .inl ⟨⟨s, by simp⟩, ⟨t, by simpa using hrest⟩⟩
      | cons c m =>
        obtain ⟨rfl, -⟩ := List.cons.inj hrest
        exact absurd (by simp) hp
    · cases m with
      | nil =>
        obtain ⟨-, rfl⟩ := List.cons.inj hrest
        exact .inl ⟨⟨s, by simpa using hm⟩, List.prefix_append b t⟩
      | cons c m =>
        -- the separator is a later one, and so is all that stands in front of it
        obtain ⟨rfl, rfl⟩ := List.cons.inj hrest
        obtain ⟨u, rfl⟩ : a <:+ m := (suffix_append_sep_iff ha).mp ⟨s, hm⟩
        exact .inr ⟨u, t, by simp⟩
  · rintro (⟨⟨s, rfl⟩, t, rfl⟩ | hrest)
    · exact ⟨s, t, by simp⟩
    · exact hrest.trans ⟨p ++ [sep], [], by simp⟩

/-- **A text with one separator** stands in fields exactly if it ends one field in front of the
separator and starts the next behind it. -/
theorem infix_intercalate_pair_iff (ha : sep ∉ a) (hb : sep ∉ b) {ps : List (List Char)}
    (hps : ∀ p ∈ ps, sep ∉ p) :
    a ++ sep :: b <:+: [sep].intercalate ps ↔ ∃ p q, [p, q] <:+: ps ∧ a <:+ p ∧ b <+: q := by
  induction ps with
  | nil => simp
  | cons p ps ih =>
    have hp : sep ∉ p := hps p (List.mem_cons_self ..)
    cases ps with
    | nil =>
      rw [List.intercalate_singleton]
      constructor
      · intro h
        exact absurd (h.subset (by simp)) hp
      · rintro ⟨x, y, hxy, -⟩
        exact absurd hxy.length_le (by simp)
    | cons q ps =>
      have hsplit : [sep].intercalate (p :: q :: ps) = p ++ sep :: [sep].intercalate (q :: ps) := by
        simp [List.intercalate_cons_cons]
      have hfirst : b <+: [sep].intercalate (q :: ps) ↔ b <+: q := by
        cases ps with
        | nil => rw [List.intercalate_singleton]
        | cons r ps =>
          rw [List.intercalate_cons_cons, List.append_assoc, List.singleton_append,
            prefix_append_sep_iff hb]
      have hpair : ∀ x y, [x, y] <:+: p :: q :: ps ↔ (x = p ∧ y = q) ∨ [x, y] <:+: q :: ps := by
        intro x y
        rw [List.infix_cons_iff, List.cons_prefix_cons, List.cons_prefix_cons]
        simp
      rw [hsplit, infix_append_sep_pair_iff ha hp, hfirst,
        ih fun r hr => hps r (List.mem_cons_of_mem p hr)]
      simp only [hpair]
      grind

end SuiteGate.Text
