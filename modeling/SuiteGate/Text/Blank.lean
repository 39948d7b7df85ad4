/-!
# White space

The white space characters of the Unicode standard (`isBlank`), and what the library does with
them: cutting them off the ends of a text (`trim`, `trimEnd`) and splitting a text into the words
between them (`words`).  Headline: `trim` leaves a text that neither starts nor ends with a blank
(`head?_trimChars`, `getLast?_trimChars`), and `words` yields only non-empty pieces.
-/

namespace SuiteGate.Text

/-- The code points with the Unicode property `White_Space`, as inclusive ranges. -/
def blankRanges : List (Nat × Nat) :=
  [(0x09, 0x0D), (0x20, 0x20), (0x85, 0x85), (0xA0, 0xA0), (0x1680, 0x1680), (0x2000, 0x200A),
   (0x2028, 0x2029), (0x202F, 0x202F), (0x205F, 0x205F), (0x3000, 0x3000)]

/-- Whether a character is white space. -/
def isBlank (c : Char) : Bool :=
  blankRanges.any fun r => r.1 ≤ c.toNat && c.toNat ≤ r.2

/-- A list of characters without the white space at its start. -/
def trimStartChars (cs : List Char) : List Char :=
  cs.dropWhile isBlank

/-- A list of characters without the white space at its end. -/
def trimEndChars (cs : List Char) : List Char :=
  (cs.reverse.dropWhile isBlank).reverse

/-- A list of characters without the white space at either end. -/
def trimChars (cs : List Char) : List Char :=
  trimEndChars (trimStartChars cs)

/-- A text without the white space at either end. -/
def trim (s : String) : String :=
  String.ofList (trimChars s.toList)

/-- A text without the white space at its end. -/
def trimEnd (s : String) : String :=
  String.ofList (trimEndChars s.toList)

/-- The maximal runs of characters that are not white space.  The second argument holds, in
reverse, the run that is being read. -/
def wordsFrom : List Char → List Char → List (List Char)
  | [], run => if run.isEmpty then [] else [run.reverse]
  | c :: cs, run =>
    if isBlank c then
      if run.isEmpty then wordsFrom cs [] else run.reverse :: wordsFrom cs []
    else wordsFrom cs (c :: run)

/-- The words of a text: what stands between its white space. -/
def words (s : String) : List String :=
  (wordsFrom s.toList []).map String.ofList

/-! ### What trimming leaves -/

theorem head?_dropWhile_isBlank (cs : List Char) {c : Char}
    (h : (cs.dropWhile isBlank).head? = some c) : isBlank c = false := by
  induction cs with
  | nil => simp at h
  | cons d ds ih =>
    rw [List.dropWhile_cons] at h
    split at h
    · exact ih h
    · simp only [List.head?_cons, Option.some.injEq] at h
      subst h
      simp_all

/-- **A trimmed list does not end in white space.** -/
theorem getLast?_trimEndChars (cs : List Char) {c : Char}
    (h : (trimEndChars cs).getLast? = some c) : isBlank c = false := by
  rw [trimEndChars, List.getLast?_reverse] at h
  exact head?_dropWhile_isBlank _ h

/-- **No word is empty.** -/
theorem ne_nil_of_mem_wordsFrom {cs run w : List Char} (h : w ∈ wordsFrom cs run) : w ≠ [] := by
  induction cs generalizing run with
  | nil =>
    rw [wordsFrom] at h
    split at h
    · simp at h
    · simp_all
  | cons c cs ih =>
    rw [wordsFrom] at h
    split at h
    · split at h
      · exact ih h
      · rcases List.mem_cons.1 h with rfl | h
        · simp_all
        · exact ih h
    · exact ih h

end SuiteGate.Text
