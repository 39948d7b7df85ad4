import SuiteGate.Glob.Pattern
import SuiteGate.Proofs.Text.Fields
/-!
# The pattern of a text

The pattern of a text (`escape`) matches the text and nothing else, whatever characters are in it:
it is read as the parts that stand for the characters one by one (`read?_escape_append`), and these
match nothing but the text (`matches?_exactly_iff`).  A separator in the text stays one in the
pattern (`splitChars_escape`), so a path is searched for piece by piece.
-/

namespace SuiteGate

open Shell (Pattern PatternItem)

namespace Shell.Pattern

variable {p : Pattern} {cs : List Char}

theorem matches?_nil_iff : matches? [] cs = true ↔ cs = [] := by
  rw [matches?, List.isEmpty_iff]

/-- A part that is no star stands for one character. -/
theorem matches?_cons_iff {item : PatternItem} (h : item ≠ .anyText) :
    matches? (item :: p) cs = true ↔
      ∃ c rest, cs = c :: rest ∧ item.covers c = true ∧ p.matches? rest = true := by
  cases cs with
  | nil =>
    rw [matches?]
    · simp
    · exact h
  | cons c cs =>
    rw [matches?]
    · simp [and_assoc]
    · exact h

/-- A star stands for any start of the text. -/
theorem matches?_anyText_iff :
    matches? (.anyText :: p) cs = true ↔ ∃ rest, rest <:+ cs ∧ p.matches? rest = true := by
  induction cs with
  | nil => simp [matches?]
  | cons c cs ih =>
    rw [matches?, Bool.or_eq_true, ih]
    constructor
    · rintro (h | ⟨rest, hrest, h⟩)
      · exact ⟨c :: cs, List.suffix_refl _, h⟩
      · exact ⟨rest, hrest.trans (List.suffix_cons c cs), h⟩
    · rintro ⟨rest, hrest, h⟩
      rcases List.suffix_cons_iff.mp hrest with rfl | hrest
      · exact .inl h
      · exact .inr ⟨rest, hrest, h⟩

end Shell.Pattern

namespace Glob

/-- The part of a pattern that stands for a character. -/
def partFor (c : Char) : PatternItem :=
  if isSpecial c then .set false [(c, c)] else .char c

/-- The parts of the pattern of a text. -/
def exactly (cs : List Char) : Pattern :=
  cs.map partFor

theorem partFor_ne_anyText (c : Char) : partFor c ≠ .anyText := by
  rw [partFor]
  split <;> simp

theorem covers_partFor_iff {c e : Char} : (partFor c).covers e = true ↔ e = c := by
  rw [partFor]
  split
  · have hle : c ≤ e ∧ e ≤ c ↔ e = c :=
      ⟨fun h => Char.le_antisymm h.2 h.1, fun h => h ▸ ⟨Char.le_refl e, Char.le_refl e⟩⟩
    simpa [PatternItem.covers] using hle
  · simp [PatternItem.covers]

section

variable {cs : List Char}

/-! ### Reading -/

theorem escape_cons (c : Char) (cs : List Char) :
    escape (c :: cs) = escape [c] ++ escape cs := by
  rw [escape, escape, escape, List.flatMap_cons, List.flatMap_singleton]

/-- One character of a text is read as the part that stands for it. -/
theorem readFrom_escape_singleton (c : Char) (rest : List Char) :
    readFrom .outside (escape [c] ++ rest) =
      (readFrom .outside rest).map (exactly [c] ++ ·) := by
  cases hc : isSpecial c with
  | true =>
    have hmark : c ≠ '!' := by rintro rfl; simp [isSpecial] at hc
    simp [escape, exactly, partFor, hc, readFrom, hmark, rangesOf]
  | false =>
    have hne : c ≠ '*' ∧ c ≠ '?' ∧ c ≠ '[' := by
      simp only [isSpecial, Bool.or_eq_false_iff, decide_eq_false_iff_not] at hc
      exact ⟨hc.1.1.1, hc.1.1.2, hc.1.2⟩
    simp [escape, exactly, partFor, hc, readFrom, hne]

/-- **The pattern of a text** is read as the parts that stand for its characters, and what comes
behind it as it is. -/
theorem read?_escape_append (cs rest : List Char) :
    read? (escape cs ++ rest) = (read? rest).map (exactly cs ++ ·) := by
  induction cs with
  | nil => simp [escape, exactly]
  | cons c cs ih =>
    rw [read?, escape_cons, List.append_assoc, readFrom_escape_singleton, ← read?, ih,
      Option.map_map]
    rfl

theorem read?_escape (cs : List Char) : read? (escape cs) = some (exactly cs) := by
  have h := read?_escape_append cs []
  rwa [List.append_nil, show read? [] = some [] from rfl, Option.map_some, List.append_nil] at h

/-! ### Matching -/

/-- **The pattern of a text** matches that text, and what comes behind it the rest. -/
theorem matches?_exactly_append_iff {p : Pattern} {text : List Char} :
    (exactly cs ++ p).matches? text = true ↔
      ∃ rest, text = cs ++ rest ∧ p.matches? rest = true := by
  induction cs generalizing text with
  | nil => simp [exactly]
  | cons c cs ih =>
    rw [exactly, List.map_cons, List.cons_append, ← exactly,
      Shell.Pattern.matches?_cons_iff (partFor_ne_anyText c)]
    simp only [covers_partFor_iff, ih]
    constructor
    · rintro ⟨e, rest, rfl, rfl, rest', rfl, h⟩
      exact ⟨rest', rfl, h⟩
    · rintro ⟨rest, rfl, h⟩
      exact ⟨c, cs ++ rest, rfl, rfl, rest, rfl, h⟩

theorem matches?_exactly_iff {text : List Char} :
    (exactly cs).matches? text = true ↔ text = cs := by
  have h : (exactly cs ++ []).matches? text = true ↔
      ∃ rest, text = cs ++ rest ∧ Pattern.matches? [] rest = true :=
    matches?_exactly_append_iff
  rw [List.append_nil] at h
  rw [h]
  simp [Shell.Pattern.matches?_nil_iff]

/-- The pattern of a text is plain if the text has no special characters. -/
theorem plainText?_exactly (cs : List Char) :
    plainText? (exactly cs) = if cs.any isSpecial then none else some cs := by
  induction cs with
  | nil => rfl
  | cons c cs ih =>
    rw [exactly, List.map_cons, ← exactly, partFor, List.any_cons]
    cases hc : isSpecial c with
    | true => simp [plainText?]
    | false =>
      rw [if_neg Bool.false_ne_true, plainText?, ih, Bool.false_or]
      split <;> rfl

/-! ### Pieces -/

theorem slash_not_mem_escape_singleton {c : Char} (h : c ≠ '/') : '/' ∉ escape [c] := by
  rw [escape, List.flatMap_singleton]
  split <;> simp [Ne.symm h]

/-- **A separator stays one** in the pattern of a text. -/
theorem splitChars_escape (cs : List Char) :
    Text.splitChars '/' (escape cs) = (Text.splitChars '/' cs).map escape := by
  induction cs with
  | nil => rfl
  | cons c cs ih =>
    rw [escape_cons]
    by_cases hc : c = '/'
    · subst hc
      rw [Text.splitChars, if_pos rfl, List.map_cons, ← ih]
      exact Text.splitChars_append '/' [] (escape cs)
    · obtain ⟨first, rest, hcs, hsplit⟩ :=
        Text.splitChars_append_left (slash_not_mem_escape_singleton hc) (escape cs)
      rw [hsplit]
      rw [ih] at hcs
      obtain ⟨p, ps, hps, rfl, rfl⟩ := List.map_eq_cons_iff.mp hcs
      rw [Text.splitChars, if_neg hc, hps, List.map_cons, ← escape_cons]

/-- The pattern of a text starts with a separator if the text does. -/
theorem head?_escape_iff : (escape cs).head? = some '/' ↔ cs.head? = some '/' := by
  cases cs with
  | nil => rfl
  | cons c cs =>
    rw [escape_cons, escape, List.flatMap_singleton]
    cases hc : isSpecial c with
    | true =>
      have hne : c ≠ '/' := by rintro rfl; simp [isSpecial] at hc
      simp [hne]
    | false => simp

theorem mapM_read?_escape (segs : List (List Char)) :
    (segs.map escape).mapM read? = some (segs.map exactly) := by
  induction segs with
  | nil => rfl
  | cons s segs ih => rw [List.map_cons, List.mapM_cons, read?_escape, ih]; rfl

end

end Glob

end SuiteGate
