/-!
# Lines and fields

Cutting texts apart and finding texts in texts, all on lists of characters: `splitChars` cuts at
every occurrence of a separator, `linesOf` cuts at line ends (a carriage return before a line feed
belongs to the line end), `occursIn` looks for one list inside another and `replaceChars` exchanges
its occurrences.  Headline: joining what `splitChars` returns gives the text back
(`intercalate_splitChars`), and `occursIn` is `List.IsInfix` (`occursIn_iff`).
-/

namespace SuiteGate.Text

/-! ### Fields -/

/-- The pieces between the occurrences of a separator; one piece more than there are separators. -/
def splitChars (sep : Char) : List Char → List (List Char)
  | [] => [[]]
  | c :: cs =>
    if c = sep then [] :: splitChars sep cs
    else
      match splitChars sep cs with
      | [] => [[c]]
      | p :: ps => (c :: p) :: ps

/-- The pieces of a text between the occurrences of a separator. -/
def split (sep : Char) (s : String) : List String :=
  (splitChars sep s.toList).map String.ofList

theorem splitChars_ne_nil (sep : Char) (cs : List Char) : splitChars sep cs ≠ [] := by
  cases cs with
  | nil => simp [splitChars]
  | cons c cs =>
    rw [splitChars]
    split
    · simp
    · split <;> simp

/-- **Splitting loses nothing.** -/
theorem intercalate_splitChars (sep : Char) (cs : List Char) :
    [sep].intercalate (splitChars sep cs) = cs := by
  induction cs with
  | nil => simp [splitChars, List.intercalate]
  | cons c cs ih =>
    rw [splitChars]
    have hne := splitChars_ne_nil sep cs
    split
    · next h =>
      subst h
      cases hs : splitChars c cs with
      | nil => exact absurd hs hne
      | cons p ps => rw [← ih, hs]; simp [List.intercalate]
    · cases hs : splitChars sep cs with
      | nil => exact absurd hs hne
      | cons p ps =>
        rw [← ih, hs]
        cases ps <;> simp [List.intercalate]

/-- **No piece holds the separator.** -/
theorem sep_not_mem_of_mem_splitChars {sep : Char} {cs p : List Char}
    (h : p ∈ splitChars sep cs) : sep ∉ p := by
  induction cs generalizing p with
  | nil => simp_all [splitChars]
  | cons c cs ih =>
    rw [splitChars] at h
    split at h
    · rcases List.mem_cons.1 h with rfl | h
      · simp
      · exact ih h
    · next hc =>
      cases hs : splitChars sep cs with
      | nil => exact absurd hs (splitChars_ne_nil sep cs)
      | cons q qs =>
        rw [hs] at h
        rcases List.mem_cons.1 h with rfl | h
        · have := ih (p := q) (by simp [hs])
          simp only [List.mem_cons, not_or]
          exact ⟨fun e => hc e.symm, this⟩
        · exact ih (by simp [hs, h])

/-! ### Lines -/

/-- A line without the carriage return that belonged to its line end. -/
def dropReturn (line : List Char) : List Char :=
  if line.getLast? = some '\r' then line.dropLast else line

/-- The lines of a text.  The piece after the last line feed is a line of its own unless it is
empty, and it keeps a carriage return at its end. -/
def linesOf (cs : List Char) : List (List Char) :=
  let pieces := splitChars '\n' cs
  let last := pieces.getLastD []
  pieces.dropLast.map dropReturn ++ if last.isEmpty then [] else [last]

/-- The lines of a text. -/
def lines (s : String) : List String :=
  (linesOf s.toList).map String.ofList

/-! ### Finding and exchanging -/

/-- Whether a list of characters occurs inside another. -/
def occursIn (needle : List Char) : List Char → Bool
  | [] => needle.isEmpty
  | c :: cs => needle.isPrefixOf (c :: cs) || occursIn needle cs

/-- Whether a text occurs inside another. -/
def contains (s needle : String) : Bool :=
  occursIn needle.toList s.toList

theorem occursIn_iff {needle cs : List Char} : occursIn needle cs = true ↔ needle <:+: cs := by
  induction cs with
  | nil => simp [occursIn]
  | cons c cs ih =>
    rw [occursIn, Bool.or_eq_true, ih, List.infix_cons_iff, List.isPrefixOf_iff_prefix]

/-- What follows a list of characters at the start of another. -/
def dropPrefix? : List Char → List Char → Option (List Char)
  | [], cs => some cs
  | _ :: _, [] => none
  | p :: ps, c :: cs => if p = c then dropPrefix? ps cs else none

/-- The text that follows a given text at the start of another. -/
def afterPrefix? (pre s : String) : Option String :=
  (dropPrefix? pre.toList s.toList).map String.ofList

theorem dropPrefix?_eq_some_iff {ps cs r : List Char} :
    dropPrefix? ps cs = some r ↔ cs = ps ++ r := by
  fun_induction dropPrefix? ps cs with
  | case1 cs => simp [eq_comm]
  | case2 => simp
  | case3 p ps cs ih => simpa using ih
  | case4 p ps c cs h =>
    simp only [List.cons_append, List.cons.injEq, reduceCtorEq, false_iff, not_and]
    exact fun e => absurd e.symm h

/-- A list with each occurrence of the first, non-empty list exchanged for the second, read from
the left and without overlaps.  The number bounds the steps. -/
def replaceChars (old new : List Char) : Nat → List Char → List Char
  | 0, cs => cs
  | _, [] => []
  | n + 1, c :: cs =>
    match dropPrefix? old (c :: cs) with
    | some rest => if old.isEmpty then c :: cs else new ++ replaceChars old new n rest
    | none => c :: replaceChars old new n cs

/-- A text with each occurrence of one text exchanged for another. -/
def replace (s old new : String) : String :=
  String.ofList (replaceChars old.toList new.toList (s.length + 1) s.toList)

/-- Whether a text starts with another. -/
def startsWith (s pre : String) : Bool :=
  pre.toList.isPrefixOf s.toList

/-- Whether a text ends with another. -/
def endsWith (s suffix : String) : Bool :=
  suffix.toList.isSuffixOf s.toList

/-- The texts one after the other, a separator between each two. -/
def join (sep : String) (parts : List String) : String :=
  sep.intercalate parts

end SuiteGate.Text
