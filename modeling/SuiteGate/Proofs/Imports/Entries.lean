import Mathlib.Data.List.Basic
import Mathlib.Tactic.Common
import SuiteGate.Imports.Entry
/-!
# Entries and the quotes of a text

An entry is recognised by its quotes.  So a text is cut at all of its quotes (`cut`), and nothing
is lost by that (`glue_cut`, `cut_glue`).  An entry is then a row of seven words with one more
quote behind them (`EntryAt`), and the reader of entries finds the first such row
(`findEntry_spec`).

What is exchanged in a text is one of its words (`wordsOf_exchange`).  Two entries can only share
words if a version is the word `name`: each other word of an entry has to be something that it
cannot be in another entry, or has such a word next to it (`EntryAt.of_set`).  The headline is
`version?_exchange_of_ne`: the version of every other import is afterwards what it was.
-/

namespace SuiteGate.Imports

/-! ### Cutting a text at its quotes -/

/-- A quote with the word between it and the next one. -/
abbrev QuotedWord := Char × List Char

/-- What stands before the first quote, and the quotes, each with the word behind it. -/
def cut : List Char → List Char × List QuotedWord
  | [] => ([], [])
  | c :: cs =>
    if isQuote c then ([], (c, (cut cs).1) :: (cut cs).2) else (c :: (cut cs).1, (cut cs).2)

/-- The text that quotes and words are cut from. -/
def glue (ws : List QuotedWord) : List Char :=
  ws.flatMap fun w => w.1 :: w.2

/-- There is no quote among the characters. -/
def Unquoted (cs : List Char) : Prop :=
  ∀ c ∈ cs, isQuote c = false

instance : DecidablePred Unquoted := fun cs =>
  decidable_of_iff (cs.all (!isQuote ·) = true) (by simp [Unquoted])

/-- Quotes with words in which there is none. -/
def WellCut (ws : List QuotedWord) : Prop :=
  ∀ w ∈ ws, isQuote w.1 = true ∧ Unquoted w.2

@[simp]
theorem glue_nil : glue [] = [] := rfl

@[simp]
theorem glue_cons (w : QuotedWord) (ws : List QuotedWord) :
    glue (w :: ws) = w.1 :: (w.2 ++ glue ws) := rfl

@[simp]
theorem glue_append (ws us : List QuotedWord) : glue (ws ++ us) = glue ws ++ glue us :=
  List.flatMap_append

@[simp]
theorem wellCut_cons {w : QuotedWord} {ws : List QuotedWord} :
    WellCut (w :: ws) ↔ (isQuote w.1 = true ∧ Unquoted w.2) ∧ WellCut ws :=
  List.forall_mem_cons

@[simp]
theorem wellCut_append {ws us : List QuotedWord} : WellCut (ws ++ us) ↔ WellCut ws ∧ WellCut us :=
  List.forall_mem_append

theorem cut_cons_of_isQuote {c : Char} (hc : isQuote c = true) (cs : List Char) :
    cut (c :: cs) = ([], (c, (cut cs).1) :: (cut cs).2) := by
  rw [cut, if_pos hc]

theorem cut_cons_of_not_isQuote {c : Char} (hc : isQuote c = false) (cs : List Char) :
    cut (c :: cs) = (c :: (cut cs).1, (cut cs).2) := by
  rw [cut, if_neg (by simp [hc])]

/-- **Nothing of a text is lost.** -/
theorem glue_cut (cs : List Char) : (cut cs).1 ++ glue (cut cs).2 = cs := by
  induction cs with
  | nil => rfl
  | cons c cs ih =>
    cases hc : isQuote c with
    | true => simp [cut_cons_of_isQuote hc, ih]
    | false => simp [cut_cons_of_not_isQuote hc, ih]

theorem unquoted_cut (cs : List Char) : Unquoted (cut cs).1 := by
  induction cs with
  | nil => simp [cut, Unquoted]
  | cons c cs ih =>
    cases hc : isQuote c with
    | true => simp [cut_cons_of_isQuote hc, Unquoted]
    | false =>
      rw [cut_cons_of_not_isQuote hc]
      exact List.forall_mem_cons.mpr ⟨hc, ih⟩

theorem wellCut_cut (cs : List Char) : WellCut (cut cs).2 := by
  induction cs with
  | nil => simp [cut, WellCut]
  | cons c cs ih =>
    cases hc : isQuote c with
    | true =>
      rw [cut_cons_of_isQuote hc]
      exact wellCut_cons.mpr ⟨⟨hc, unquoted_cut cs⟩, ih⟩
    | false => rwa [cut_cons_of_not_isQuote hc]

theorem cut_append {l : List Char} (hl : Unquoted l) (cs : List Char) :
    cut (l ++ cs) = (l ++ (cut cs).1, (cut cs).2) := by
  induction l with
  | nil => rfl
  | cons c l ih =>
    obtain ⟨hc, hl⟩ := List.forall_mem_cons.mp hl
    rw [List.cons_append, cut_cons_of_not_isQuote hc, ih hl, List.cons_append]

/-- **A text is cut in one way only.** -/
theorem cut_glue {ws : List QuotedWord} (h : WellCut ws) : cut (glue ws) = ([], ws) := by
  induction ws with
  | nil => rfl
  | cons w ws ih =>
    obtain ⟨⟨hq, hw⟩, h⟩ := wellCut_cons.mp h
    simp [cut_cons_of_isQuote hq, cut_append hw, ih h]

/-! ### What the readers read -/

/-- White space, at least one character of it. -/
def IsGap (cs : List Char) : Prop :=
  cs ≠ [] ∧ ∀ c ∈ cs, Text.isBlank c = true

/-- What can stand as the version of an import. -/
def IsVersion (cs : List Char) : Prop :=
  cs ≠ [] ∧ ∀ c ∈ cs, isVersionChar c = true

instance : DecidablePred IsVersion := fun cs =>
  decidable_of_iff (cs ≠ [] ∧ cs.all isVersionChar = true) (by simp [IsVersion])

/-- What holds of neither quote holds of no quote. -/
theorem eq_false_of_isQuote {kind : Char → Bool} (hquotes : kind '\'' = false ∧ kind '"' = false)
    {c : Char} (h : isQuote c = true) : kind c = false := by
  obtain rfl | rfl : c = '\'' ∨ c = '"' := by simpa [isQuote] using h
  · exact hquotes.1
  · exact hquotes.2

theorem not_isBlank_of_isQuote {c : Char} (h : isQuote c = true) : Text.isBlank c = false :=
  eq_false_of_isQuote (by decide) h

theorem not_isVersionChar_of_isQuote {c : Char} (h : isQuote c = true) : isVersionChar c = false :=
  eq_false_of_isQuote (by decide) h

theorem not_isNameChar_of_isQuote {c : Char} (h : isQuote c = true) : isNameChar c = false :=
  eq_false_of_isQuote (by decide) h

/-- There is no quote among the characters of a kind that quotes are not of. -/
theorem unquoted_of_kind {kind : Char → Bool} (hkind : ∀ {c}, isQuote c = true → kind c = false)
    {cs : List Char} (h : ∀ c ∈ cs, kind c = true) : Unquoted cs := by
  intro c hc
  by_contra hq
  have := h c hc
  rw [hkind (by simpa using hq)] at this
  cases this

/-- Up to a character of another kind, everything of a kind is read. -/
theorem readMany_eq_some_iff {kind : Char → Bool} {cs x rest : List Char} {c : Char}
    (hc : kind c = false) :
    readMany kind cs = some (x, c :: rest) ↔
      (x ≠ [] ∧ ∀ d ∈ x, kind d = true) ∧ cs = x ++ c :: rest := by
  rw [readMany]
  constructor
  · intro h
    split at h
    · exact absurd h (by simp)
    · rename_i hrun
      obtain ⟨rfl, hrest⟩ := Prod.mk.inj (Option.some.inj h)
      refine ⟨⟨by simpa using hrun, List.all_eq_true.mp List.all_takeWhile⟩, ?_⟩
      rw [← hrest, List.takeWhile_append_dropWhile]
  · rintro ⟨⟨hx, hkind⟩, rfl⟩
    have htake : (x ++ c :: rest).takeWhile kind = x := by
      rw [List.takeWhile_append_of_pos hkind, List.takeWhile_cons, if_neg (by simp [hc]),
        List.append_nil]
    have hdrop : (x ++ c :: rest).dropWhile kind = c :: rest := by
      rw [List.dropWhile_append_of_pos hkind, List.dropWhile_cons, if_neg (by simp [hc])]
    simp [htake, hdrop, hx]

theorem readSequence_cons_eq_some_iff {r : Reader} {rs : List Reader} {cs x rest : List Char} :
    readSequence (r :: rs) cs = some (x, rest) ↔
      ∃ y more z, r cs = some (y, more) ∧ readSequence rs more = some (z, rest) ∧ x = y ++ z := by
  rw [readSequence]
  rcases r cs with - | ⟨y, more⟩
  · simp
  · rcases h : readSequence rs more with - | ⟨z, rest'⟩
    · simp only [h, reduceCtorEq, false_iff]
      grind
    · simp only [h, Option.some.injEq, Prod.mk.injEq]
      grind

/-- The readers, one after the other, read exactly what has a form, whatever follows. -/
def Read (rs : List Reader) (form : List Char → Prop) : Prop :=
  ∀ cs x rest, readSequence rs cs = some (x, rest) ↔ form x ∧ cs = x ++ rest

namespace Read

variable {rs : List Reader} {form : List Char → Prop}

theorem nil : Read [] fun x => x = [] := by
  simp only [Read, readSequence, Option.some.injEq, Prod.mk.injEq]
  grind

theorem quote (h : Read rs form) :
    Read (readQuote :: rs) fun x => ∃ q z, isQuote q = true ∧ form z ∧ x = q :: z := by
  intro cs x rest
  rw [readSequence_cons_eq_some_iff]
  constructor
  · rintro ⟨_, more, z, hq, hz, rfl⟩
    obtain ⟨hform, rfl⟩ := (h _ _ _).mp hz
    cases cs with
    | nil => simp [readQuote] at hq
    | cons q cs =>
      obtain ⟨hquote, rfl, rfl⟩ : isQuote q = true ∧ [q] = _ ∧ cs = _ := by
        simpa [readQuote] using hq
      exact ⟨⟨q, z, hquote, hform, rfl⟩, rfl⟩
  · rintro ⟨⟨q, z, hq, hz, rfl⟩, rfl⟩
    exact ⟨[q], z ++ rest, z, by simp [readQuote, hq], (h _ _ _).mpr ⟨hz, rfl⟩, rfl⟩

theorem exactly (word : List Char) (h : Read rs form) :
    Read (readExactly word :: rs) fun x => ∃ z, form z ∧ x = word ++ z := by
  intro cs x rest
  simp only [readSequence_cons_eq_some_iff, readExactly, Option.map_eq_some_iff,
    Text.dropPrefix?_eq_some_iff, Prod.mk.injEq]
  constructor
  · rintro ⟨_, more, z, ⟨_, rfl, rfl, rfl⟩, hz, rfl⟩
    obtain ⟨hform, rfl⟩ := (h _ _ _).mp hz
    exact ⟨⟨z, hform, rfl⟩, by simp⟩
  · rintro ⟨⟨z, hz, rfl⟩, rfl⟩
    exact ⟨word, z ++ rest, z, ⟨_, by simp, rfl, rfl⟩, (h _ _ _).mpr ⟨hz, rfl⟩, rfl⟩

/-- White space up to a quote is read. -/
theorem gap (h : Read rs form) :
    Read (readMany Text.isBlank :: readQuote :: rs) fun x =>
      ∃ gap z, IsGap gap ∧ (∃ q y, isQuote q = true ∧ form y ∧ z = q :: y) ∧ x = gap ++ z := by
  intro cs x rest
  rw [readSequence_cons_eq_some_iff]
  constructor
  · rintro ⟨gap, _, z, hgap, hz, rfl⟩
    obtain ⟨⟨q, y, hq, hy, rfl⟩, rfl⟩ := (h.quote _ _ _).mp hz
    obtain ⟨hblank, rfl⟩ := (readMany_eq_some_iff (not_isBlank_of_isQuote hq)).mp hgap
    exact ⟨⟨gap, _, hblank, ⟨q, y, hq, hy, rfl⟩, rfl⟩, by simp⟩
  · rintro ⟨⟨gap, _, hgap, ⟨q, y, hq, hy, rfl⟩, rfl⟩, rfl⟩
    refine ⟨gap, q :: (y ++ rest), q :: y, ?_, (h.quote _ _ _).mpr ⟨⟨q, y, hq, hy, rfl⟩, rfl⟩, rfl⟩
    exact (readMany_eq_some_iff (not_isBlank_of_isQuote hq)).mpr ⟨hgap, by simp⟩

end Read

/-! ### Entries among the words -/

/-- A mark with white space behind it. -/
def IsMark (mark : Char) (cs : List Char) : Prop :=
  ∃ gap, IsGap gap ∧ cs = mark :: gap

theorem readOpening_eq_some_iff {cs x rest : List Char} :
    Entry.readOpening cs = some (x, rest) ↔
      (∃ q₀ q₁ q₂ m, isQuote q₀ = true ∧ isQuote q₁ = true ∧ isQuote q₂ = true ∧ IsMark ':' m ∧
        x = glue [(q₀, "name".toList), (q₁, m)] ++ [q₂]) ∧ cs = x ++ rest := by
  rw [Entry.readOpening, Read.nil.gap.exactly _ |>.quote.exactly _ |>.quote]
  refine and_congr_left fun _ => ⟨?_, ?_⟩
  · rintro ⟨q₀, _, h₀, ⟨_, ⟨q₁, _, h₁, ⟨_, ⟨gap, _, hgap, ⟨q₂, _, h₂, rfl, rfl⟩, rfl⟩, rfl⟩, rfl⟩,
      rfl⟩, rfl⟩
    exact ⟨q₀, q₁, q₂, _, h₀, h₁, h₂, ⟨gap, hgap, rfl⟩, by simp⟩
  · rintro ⟨q₀, q₁, q₂, _, h₀, h₁, h₂, ⟨gap, hgap, rfl⟩, rfl⟩
    exact ⟨q₀, _, h₀, ⟨_, ⟨q₁, _, h₁, ⟨_, ⟨gap, _, hgap, ⟨q₂, _, h₂, rfl, rfl⟩, rfl⟩, rfl⟩, rfl⟩,
      rfl⟩, by simp⟩

theorem readMiddle_eq_some_iff {cs x rest : List Char} :
    Entry.readMiddle cs = some (x, rest) ↔
      (∃ q₀ q₁ q₂ q₃ m m', (isQuote q₀ = true ∧ isQuote q₁ = true ∧ isQuote q₂ = true ∧
        isQuote q₃ = true) ∧ IsMark ',' m ∧ IsMark ':' m' ∧
        x = glue [(q₀, m), (q₁, "version".toList), (q₂, m')] ++ [q₃]) ∧ cs = x ++ rest := by
  rw [Entry.readMiddle, Read.nil.gap.exactly _ |>.quote.exactly _ |>.gap.exactly _ |>.quote]
  refine and_congr_left fun _ => ⟨?_, ?_⟩
  · rintro ⟨q₀, _, h₀, ⟨_, ⟨gap, _, hgap, ⟨q₁, _, h₁, ⟨_, ⟨q₂, _, h₂, ⟨_, ⟨gap', _, hgap',
      ⟨q₃, _, h₃, rfl, rfl⟩, rfl⟩, rfl⟩, rfl⟩, rfl⟩, rfl⟩, rfl⟩, rfl⟩, rfl⟩
    exact ⟨q₀, q₁, q₂, q₃, _, _, ⟨h₀, h₁, h₂, h₃⟩, ⟨gap, hgap, rfl⟩, ⟨gap', hgap', rfl⟩, by simp⟩
  · rintro ⟨q₀, q₁, q₂, q₃, _, _, ⟨h₀, h₁, h₂, h₃⟩, ⟨gap, hgap, rfl⟩, ⟨gap', hgap', rfl⟩, rfl⟩
    exact ⟨q₀, _, h₀, ⟨_, ⟨gap, _, hgap, ⟨q₁, _, h₁, ⟨_, ⟨q₂, _, h₂, ⟨_, ⟨gap', _, hgap',
      ⟨q₃, _, h₃, rfl, rfl⟩, rfl⟩, rfl⟩, rfl⟩, rfl⟩, rfl⟩, rfl⟩, rfl⟩, by simp⟩

/-- The words before the version of an entry. -/
def Heads (n : List Char) (ws : List (List Char)) : Prop :=
  ∃ m₁ m₂ m₃, IsMark ':' m₁ ∧ IsMark ',' m₂ ∧ IsMark ':' m₃ ∧
    ws = ["name".toList, m₁, n, m₂, "version".toList, m₃]

/-- A reader reads, up to a quote, what is of a kind. -/
def ReadsToQuote (r : Reader) (kind : List Char → Prop) : Prop :=
  ∀ cs n q rest, isQuote q = true → (r cs = some (n, q :: rest) ↔ kind n ∧ cs = n ++ q :: rest)

theorem ReadsToQuote.exactly (n : List Char) : ReadsToQuote (readExactly n) fun m => m = n := by
  intro cs m q rest _
  simp only [readExactly, Option.map_eq_some_iff, Text.dropPrefix?_eq_some_iff, Prod.mk.injEq]
  grind

/-- A reader of names in which there is no quote. -/
structure ReadsNames (r : Reader) (kind : List Char → Prop) : Prop where
  unquoted : ∀ n, kind n → Unquoted n
  reads : ReadsToQuote r kind

theorem ReadsNames.exactly {n : List Char} (hn : Unquoted n) :
    ReadsNames (readExactly n) fun m => m = n where
  unquoted := by rintro _ rfl; exact hn
  reads := .exactly n

/-- What can stand as the name of any import. -/
def IsImportName (cs : List Char) : Prop :=
  cs ≠ [] ∧ ∀ c ∈ cs, isNameChar c = true

instance : DecidablePred IsImportName := fun cs =>
  decidable_of_iff (cs ≠ [] ∧ cs.all isNameChar = true) (by simp [IsImportName])

theorem IsImportName.unquoted {n : List Char} (h : IsImportName n) : Unquoted n :=
  unquoted_of_kind not_isNameChar_of_isQuote h.2

theorem ReadsNames.importName : ReadsNames (readMany isNameChar) IsImportName where
  unquoted := fun _ => IsImportName.unquoted
  reads := fun _ _ _ _ hq => readMany_eq_some_iff (not_isNameChar_of_isQuote hq)

section

variable {r : Reader} {kind : List Char → Prop}

/-- **What an entry at the start of a text is.** -/
theorem at?_eq_some_iff (hr : ReadsToQuote r kind) {cs : List Char} {e : Entry} :
    Entry.at? r cs = some e ↔
      ∃ ws q q' rest, (∀ w ∈ ws, isQuote w.1 = true) ∧ Heads e.name (ws.map Prod.snd) ∧
        kind e.name ∧ isQuote q = true ∧ IsVersion e.version ∧ isQuote q' = true ∧
        e.before = glue ws ++ [q] ∧ e.after = q' :: rest ∧
        cs = e.before ++ e.version ++ e.after := by
  simp only [Entry.at?, Option.bind_eq_bind, Option.bind_eq_some_iff, Prod.exists,
    readOpening_eq_some_iff, readMiddle_eq_some_iff]
  constructor
  · rintro ⟨opening, _, ⟨⟨q₀, q₁, q₂, m₁, h₀, h₁, h₂, hm₁, rfl⟩, rfl⟩, name, rest₁, hname, middle,
      rest₂, ⟨⟨q₃, q₄, q₅, q₆, m₂, m₃, ⟨h₃, h₄, h₅, h₆⟩, hm₂, hm₃, rfl⟩, rfl⟩, version, rest₃,
      hversion, last, rest₄, hlast, he⟩
    obtain ⟨q₇, rest, h₇, rfl⟩ : ∃ q₇ rest, isQuote q₇ = true ∧ rest₃ = q₇ :: rest := by
      cases rest₃ with
      | nil => simp [readQuote] at hlast
      | cons q₇ rest =>
        exact ⟨q₇, rest, by_contra fun h => by simp [readQuote, h] at hlast, rfl⟩
    obtain rfl := Option.some.inj he
    obtain ⟨hchars, rfl⟩ := (readMany_eq_some_iff (not_isVersionChar_of_isQuote h₇)).mp hversion
    obtain ⟨hkind, rfl⟩ := (hr _ _ _ _ h₃).mp hname
    refine ⟨[(q₀, "name".toList), (q₁, m₁), (q₂, name), (q₃, m₂), (q₄, "version".toList), (q₅, m₃)],
      q₆, q₇, rest, ?_, ⟨m₁, m₂, m₃, hm₁, hm₂, hm₃, rfl⟩, hkind, h₆, hchars, h₇, ?_, rfl, ?_⟩
    · simp [h₀, h₁, h₂, h₃, h₄, h₅]
    · simp
    · simp
  · obtain ⟨name, before, version, after⟩ := e
    rintro ⟨ws, q, q', rest, hws, ⟨m₁, m₂, m₃, hm₁, hm₂, hm₃, hwords⟩, hkind, hq, hversion, hq',
      rfl, rfl, rfl⟩
    obtain ⟨q₀, q₁, q₂, q₃, q₄, q₅, rfl⟩ : ∃ q₀ q₁ q₂ q₃ q₄ q₅, ws = [(q₀, "name".toList), (q₁, m₁),
        (q₂, name), (q₃, m₂), (q₄, "version".toList), (q₅, m₃)] := by
      simp only [List.map_eq_cons_iff, List.map_eq_nil_iff] at hwords
      grind
    simp only [List.forall_mem_cons, List.not_mem_nil] at hws
    obtain ⟨h₀, h₁, h₂, h₃, h₄, h₅, -⟩ := hws
    -- the three parts that the readers read, and what is left after each
    refine ⟨glue [(q₀, "name".toList), (q₁, m₁)] ++ [q₂],
      name ++ q₃ :: (m₂ ++ glue [(q₄, "version".toList), (q₅, m₃)] ++ q :: version ++ q' :: rest),
      ⟨⟨q₀, q₁, q₂, m₁, h₀, h₁, h₂, hm₁, rfl⟩, by simp⟩, name, _,
      (hr _ _ _ _ h₃).mpr ⟨hkind, rfl⟩,
      glue [(q₃, m₂), (q₄, "version".toList), (q₅, m₃)] ++ [q], version ++ q' :: rest,
      ⟨⟨q₃, q₄, q₅, q, m₂, m₃, ⟨h₃, h₄, h₅, hq⟩, hm₂, hm₃, rfl⟩, by simp⟩, version, q' :: rest,
      (readMany_eq_some_iff (not_isVersionChar_of_isQuote hq')).mpr ⟨hversion, rfl⟩, [q'], rest,
      by simp [readQuote, hq'], by simp⟩

theorem IsVersion.unquoted {v : List Char} (h : IsVersion v) : Unquoted v :=
  unquoted_of_kind not_isVersionChar_of_isQuote h.2

theorem IsMark.unquoted {mark : Char} (hmark : isQuote mark = false) {m : List Char}
    (h : IsMark mark m) : Unquoted m := by
  obtain ⟨gap, hgap, rfl⟩ := h
  exact List.forall_mem_cons.mpr ⟨hmark, unquoted_of_kind not_isBlank_of_isQuote hgap.2⟩

theorem Heads.unquoted {n : List Char} {ws : List (List Char)} (h : Heads n ws)
    (hn : Unquoted n) : ∀ w ∈ ws, Unquoted w := by
  obtain ⟨m₁, m₂, m₃, h₁, h₂, h₃, rfl⟩ := h
  have hword : Unquoted "name".toList ∧ Unquoted "version".toList := by decide
  simp only [List.forall_mem_cons]
  exact ⟨hword.1, h₁.unquoted (by decide), hn, h₂.unquoted (by decide), hword.2,
    h₃.unquoted (by decide), by simp⟩

theorem Heads.length {n : List Char} {ws : List (List Char)} (h : Heads n ws) : ws.length = 6 := by
  obtain ⟨m₁, m₂, m₃, -, -, -, rfl⟩ := h
  rfl

/-- An entry in a row of words, with the place of its first word. -/
structure EntryAt (ws : List (List Char)) (i : ℕ) (n v : List Char) : Prop where
  heads : Heads n ((ws.drop i).take 6)
  version : ws[i + 6]? = some v
  isVersion : IsVersion v
  ends : i + 7 < ws.length

theorem entryAt_cons_succ {w : List Char} {ws : List (List Char)} {i : ℕ} {n v : List Char} :
    EntryAt (w :: ws) (i + 1) n v ↔ EntryAt ws i n v := by
  have hplace : (w :: ws)[i + 1 + 6]? = ws[i + 6]? := by
    rw [Nat.add_right_comm, List.getElem?_cons_succ]
  have hends : i + 1 + 7 < (w :: ws).length ↔ i + 7 < ws.length := by
    rw [List.length_cons]
    omega
  exact ⟨fun h => ⟨h.heads, hplace ▸ h.version, h.isVersion, hends.mp h.ends⟩,
    fun h => ⟨h.heads, hplace ▸ h.version, h.isVersion, hends.mpr h.ends⟩⟩

theorem entryAt_drop {ws : List (List Char)} {k : ℕ} {n v : List Char} :
    EntryAt (ws.drop k) 0 n v ↔ EntryAt ws k n v := by
  have hends : 0 + 7 < (ws.drop k).length ↔ k + 7 < ws.length := by
    rw [List.length_drop]
    omega
  have hplace : (ws.drop k)[0 + 6]? = ws[k + 6]? := by rw [List.getElem?_drop, Nat.zero_add]
  exact ⟨fun h => ⟨h.heads, hplace ▸ h.version, h.isVersion, hends.mp h.ends⟩,
    fun h => ⟨h.heads, hplace ▸ h.version, h.isVersion, hends.mpr h.ends⟩⟩

theorem glue_inj {ws us : List QuotedWord} (hws : WellCut ws) (hus : WellCut us)
    (h : glue ws = glue us) : ws = us := by
  have hcut := cut_glue hws
  rw [h, cut_glue hus] at hcut
  exact (congrArg Prod.snd hcut).symm

/-- What the reader of an entry finds among quotes and words, that at the given place being its
first. -/
structure Found (kind : List Char → Prop) (ws : List QuotedWord) (i : ℕ) (e : Entry) : Prop where
  kind : kind e.name
  entry : EntryAt (ws.map Prod.snd) i e.name e.version
  parts : ∃ q, ws[i + 6]? = some (q, e.version) ∧ e.before = glue (ws.take (i + 6)) ++ [q]
  after : e.after = glue (ws.drop (i + 7))

theorem at?_glue (hr : ReadsNames r kind) {ws : List QuotedWord} (hws : WellCut ws) {e : Entry} :
    Entry.at? r (glue ws) = some e ↔ Found kind ws 0 e := by
  rw [at?_eq_some_iff hr.reads]
  constructor
  · rintro ⟨heads, q, q', rest, hquotes, hheads, hkind, hq, hversion, hq', hbefore, hafter, hglue⟩
    obtain rfl : ws = heads ++ (q, e.version) :: (q', (cut rest).1) :: (cut rest).2 := by
      refine glue_inj hws ?_ ?_
      · have hwords := hheads.unquoted (hr.unquoted _ hkind)
        simp only [wellCut_append, wellCut_cons]
        exact ⟨fun w hw => ⟨hquotes w hw, hwords _ (List.mem_map_of_mem hw)⟩,
          ⟨hq, hversion.unquoted⟩, ⟨hq', unquoted_cut rest⟩, wellCut_cut rest⟩
      · simp [hglue, hbefore, hafter, glue_cut]
    have hlength : heads.length = 6 := by simpa using hheads.length
    refine ⟨hkind, ⟨?_, ?_, hversion, ?_⟩, ⟨q, ?_, ?_⟩, ?_⟩
    · simpa [List.take_append, hlength] using hheads
    · simp [hlength]
    · simp [hlength]
      omega
    · simp [hlength]
    · simpa [List.take_append, hlength] using hbefore
    · rw [List.drop_append, List.drop_eq_nil_of_le (by omega), hlength]
      simp [hafter, glue_cut]
  · rintro ⟨hkind, hentry, ⟨q, hq, hbefore⟩, hafter⟩
    rw [Nat.zero_add] at hq hbefore hafter
    have hends : 7 < ws.length := by simpa using hentry.ends
    have hdrop : ws.drop 6 = (q, e.version) :: ws.drop 7 := by
      rw [List.drop_eq_getElem_cons (by omega)]
      exact congrArg (· :: ws.drop 7) (Option.some.inj ((List.getElem?_eq_getElem _).symm.trans hq))
    obtain ⟨⟨q', w⟩, more, hmore⟩ : ∃ w more, ws.drop 7 = w :: more :=
      List.exists_cons_of_length_pos (by rw [List.length_drop]; omega)
    have hsplit : ws = ws.take 6 ++ (q, e.version) :: (q', w) :: more := by
      rw [← hmore, ← hdrop, List.take_append_drop]
    rw [hmore] at hafter
    have hcut := hws
    rw [hsplit] at hcut
    simp only [wellCut_append, wellCut_cons] at hcut
    obtain ⟨hheads, ⟨hquote, -⟩, ⟨hquote', -⟩, -⟩ := hcut
    refine ⟨ws.take 6, q, q', w ++ glue more, fun w hw => (hheads w hw).1, ?_, hkind, hquote,
      hentry.isVersion, hquote', hbefore, hafter, ?_⟩
    · simpa [List.map_take] using hentry.heads
    · conv_lhs => rw [hsplit]
      simp [hbefore, hafter]

theorem at?_cons_of_not_isQuote {c : Char} (hc : isQuote c = false) (cs : List Char) :
    Entry.at? r (c :: cs) = none := by
  simp [Entry.at?, Entry.readOpening, readSequence, readQuote, hc]

/-- The reader of entries goes on behind what holds no quote. -/
theorem find?_append {l : List Char} (hl : Unquoted l) (cs : List Char) :
    Entry.find? r (l ++ cs) =
      (Entry.find? r cs).map fun e => { e with before := l ++ e.before } := by
  induction l with
  | nil => simp
  | cons c l ih =>
    obtain ⟨hc, hl⟩ := List.forall_mem_cons.mp hl
    rw [List.cons_append, Entry.find?, at?_cons_of_not_isQuote hc, ih hl, Option.map_map]
    rfl

/-- There is no entry of a kind before a place. -/
def NoneBefore (kind : List Char → Prop) (ws : List (List Char)) (i : ℕ) : Prop :=
  ∀ j < i, ∀ n, kind n → ∀ v, ¬ EntryAt ws j n v

theorem EntryAt.exists_found {ws : List QuotedWord} {i : ℕ} {n v : List Char}
    (h : EntryAt (ws.map Prod.snd) i n v) (hn : kind n) : ∃ e, Found kind ws i e := by
  obtain ⟨⟨q, _⟩, hq, rfl⟩ : ∃ w, ws[i + 6]? = some w ∧ w.2 = v := by
    simpa [List.getElem?_map] using h.version
  exact ⟨⟨n, _, _, _⟩, hn, h, ⟨q, hq, rfl⟩, rfl⟩

theorem Found.cons {ws : List QuotedWord} {i : ℕ} {e : Entry} (h : Found kind ws i e)
    (w : QuotedWord) :
    Found kind (w :: ws) (i + 1) { e with before := w.1 :: (w.2 ++ e.before) } := by
  obtain ⟨q, hq, hbefore⟩ := h.parts
  have hplace : i + 1 + 6 = i + 6 + 1 := Nat.add_right_comm ..
  refine ⟨h.kind, entryAt_cons_succ.mpr h.entry, ⟨q, ?_, ?_⟩, h.after⟩
  · rw [hplace, List.getElem?_cons_succ, hq]
  · rw [hplace, List.take_succ_cons, glue_cons, hbefore, List.cons_append, List.append_assoc]

theorem NoneBefore.cons {w : List Char} {ws : List (List Char)} {i : ℕ}
    (hfirst : ∀ n, kind n → ∀ v, ¬ EntryAt (w :: ws) 0 n v) (h : NoneBefore kind ws i) :
    NoneBefore kind (w :: ws) (i + 1) := by
  intro j hj n hn v
  cases j with
  | zero => exact hfirst n hn v
  | succ j =>
    exact fun hentry => h j (Nat.lt_of_succ_lt_succ hj) n hn v (entryAt_cons_succ.mp hentry)

/-- **The reader of entries finds the first one.** -/
theorem find?_glue (hr : ReadsNames r kind) {ws : List QuotedWord} (hws : WellCut ws) :
    match Entry.find? r (glue ws) with
    | some e => ∃ i, Found kind ws i e ∧ NoneBefore kind (ws.map Prod.snd) i
    | none => ∀ i, NoneBefore kind (ws.map Prod.snd) i := by
  induction ws with
  | nil =>
    intro i j _ n _ v h
    exact absurd h.ends (by simp)
  | cons w ws ih =>
    have hat : ∀ e, Entry.at? r (w.1 :: (w.2 ++ glue ws)) = some e ↔ Found kind (w :: ws) 0 e :=
      fun _ => at?_glue hr hws
    rw [glue_cons, Entry.find?]
    rcases hfirst : Entry.at? r (w.1 :: (w.2 ++ glue ws)) with - | e
    · -- the first entry is that of the other words
      have hnone : ∀ n, kind n → ∀ v, ¬ EntryAt ((w :: ws).map Prod.snd) 0 n v := by
        intro n hn v h
        obtain ⟨e, he⟩ := h.exists_found hn
        exact absurd ((hat e).mpr he) (by simp [hfirst])
      obtain ⟨⟨-, hw⟩, hws⟩ := wellCut_cons.mp hws
      have ih := ih hws
      simp only [find?_append hw]
      rcases hfind : Entry.find? r (glue ws) with - | e
      · rw [hfind] at ih
        exact fun i => by
          cases i with
          | zero => exact fun j hj => absurd hj (Nat.not_lt_zero j)
          | succ i => exact (ih i).cons hnone
      · rw [hfind] at ih
        obtain ⟨i, hfound, hbefore⟩ := ih
        exact ⟨i + 1, hfound.cons w, hbefore.cons hnone⟩
    · exact ⟨0, (hat e).mp hfirst, fun j hj => absurd hj (Nat.not_lt_zero j)⟩

end

/-! ### Exchanging a word -/

theorem heads_iff {n : List Char} {ws : List (List Char)} {i : ℕ} (hi : i + 5 < ws.length) :
    Heads n ((ws.drop i).take 6) ↔
      ws[i]? = some "name".toList ∧ (∃ m, IsMark ':' m ∧ ws[i + 1]? = some m) ∧
        ws[i + 2]? = some n ∧ (∃ m, IsMark ',' m ∧ ws[i + 3]? = some m) ∧
        ws[i + 4]? = some "version".toList ∧ ∃ m, IsMark ':' m ∧ ws[i + 5]? = some m := by
  have htake : (ws.drop i).take 6 =
      [ws[i], ws[i + 1], ws[i + 2], ws[i + 3], ws[i + 4], ws[i + 5]] := by
    refine List.ext_getElem (by simp; omega) fun k hk _ => ?_
    simp only [List.getElem_take, List.getElem_drop]
    obtain rfl | rfl | rfl | rfl | rfl | rfl :
        k = 0 ∨ k = 1 ∨ k = 2 ∨ k = 3 ∨ k = 4 ∨ k = 5 := by
      rw [List.length_take] at hk
      omega
    all_goals rfl
  rw [htake, Heads]
  simp only [List.getElem?_eq_getElem (show i < ws.length by omega),
    List.getElem?_eq_getElem (show i + 1 < ws.length by omega),
    List.getElem?_eq_getElem (show i + 2 < ws.length by omega),
    List.getElem?_eq_getElem (show i + 3 < ws.length by omega),
    List.getElem?_eq_getElem (show i + 4 < ws.length by omega),
    List.getElem?_eq_getElem hi, Option.some.injEq, List.cons.injEq, and_true]
  grind

theorem IsMark.not_isVersion {m : List Char} (h : IsMark ':' m ∨ IsMark ',' m) : ¬ IsVersion m := by
  obtain ⟨gap, -, rfl⟩ | ⟨gap, -, rfl⟩ := h
  · exact fun hv => absurd (hv.2 ':' (List.mem_cons_self ..)) (by decide)
  · exact fun hv => absurd (hv.2 ',' (List.mem_cons_self ..)) (by decide)

theorem IsMark.eq_of_isMark {a b : Char} {m : List Char} (ha : IsMark a m) (hb : IsMark b m) :
    a = b := by
  obtain ⟨_, -, rfl⟩ := ha
  obtain ⟨_, -, h⟩ := hb
  exact (List.cons.inj h).1

/-- What a version may be so that it is not taken for the first word of an entry. -/
def Recordable (v : List Char) : Prop :=
  IsVersion v ∧ v ≠ "name".toList

instance : DecidablePred Recordable := fun _ => inferInstanceAs (Decidable (_ ∧ _))

section

variable {ws us : List (List Char)} {i j : ℕ} {n m v u t : List Char}

/-- **Entries do not share words** with one whose version is another in the second row. -/
theorem EntryAt.apart (h : EntryAt ws i n v) (hagree : ∀ k, k ≠ i + 6 → us[k]? = ws[k]?)
    (hat : us[i + 6]? = some t) (ht : Recordable t) (h' : EntryAt us j m u) (hne : j ≠ i) :
    ∀ k ≤ 6, j + k ≠ i + 6 := by
  obtain ⟨-, -, -, -, hversion, ⟨colon, hcolon, hcolonAt⟩⟩ :=
    (heads_iff (by have := h.ends; omega)).mp h.heads
  obtain ⟨hname, ⟨m₁, hm₁, hm₁At⟩, -, ⟨m₂, hm₂, hm₂At⟩, -, ⟨m₃, hm₃, hm₃At⟩⟩ :=
    (heads_iff (by have := h'.ends; omega)).mp h'.heads
  intro k hk hplace
  -- the new version would be a word of the other entry
  obtain rfl | rfl | rfl | rfl | rfl | rfl | rfl :
    k = 0 ∨ k = 1 ∨ k = 2 ∨ k = 3 ∨ k = 4 ∨ k = 5 ∨ k = 6 := by omega
  · rw [← hplace, Nat.add_zero, hname] at hat
    exact ht.2 (Option.some.inj hat).symm
  · rw [← hplace, hm₁At] at hat
    exact IsMark.not_isVersion (.inl hm₁) (Option.some.inj hat ▸ ht.1)
  · rw [hagree j (by omega), show j = i + 4 by omega, hversion] at hname
    exact absurd hname (by decide)
  · rw [← hplace, hm₂At] at hat
    exact IsMark.not_isVersion (.inr hm₂) (Option.some.inj hat ▸ ht.1)
  · rw [hagree (j + 3) (by omega), show j + 3 = i + 5 by omega, hcolonAt] at hm₂At
    exact absurd (hcolon.eq_of_isMark (Option.some.inj hm₂At ▸ hm₂)) (by decide)
  · rw [← hplace, hm₃At] at hat
    exact IsMark.not_isVersion (.inl hm₃) (Option.some.inj hat ▸ ht.1)
  · omega

/-- Of two entries in a row of words the later one begins behind the version of the other, unless
this is the word `name`. -/
theorem EntryAt.le_of_lt (h : EntryAt ws i n v) (h' : EntryAt ws j m u) (hv : Recordable v)
    (hij : i < j) : i + 7 ≤ j := by
  have hapart := h.apart (fun _ _ => rfl) h.version hv h' (Nat.ne_of_gt hij)
  by_contra hlt
  -- the version would be one of the words of the later entry
  exact hapart (i + 6 - j) (by omega) (by omega)

theorem EntryAt.congr (h : EntryAt ws j m u) (hlength : us.length = ws.length)
    (hagree : ∀ k ≤ 6, us[j + k]? = ws[j + k]?) : EntryAt us j m u := by
  have hends := h.ends
  refine ⟨?_, hagree 6 (Nat.le_refl 6) ▸ h.version, h.isVersion, hlength ▸ hends⟩
  have hheads := h.heads
  rw [heads_iff (by omega)] at hheads ⊢
  rwa [← show us[j]? = ws[j]? from hagree 0 (by omega), ← hagree 1 (by omega),
    ← hagree 2 (by omega), ← hagree 3 (by omega), ← hagree 4 (by omega),
    ← hagree 5 (by omega)] at hheads

theorem set_agrees (ws : List (List Char)) (i : ℕ) (t : List Char) :
    ∀ k, k ≠ i + 6 → (ws.set (i + 6) t)[k]? = ws[k]? :=
  fun _ hk => List.getElem?_set_ne hk.symm

theorem EntryAt.set (h : EntryAt ws i n v) (ht : IsVersion t) :
    EntryAt (ws.set (i + 6) t) i n t := by
  have hends := h.ends
  refine ⟨?_, List.getElem?_set_self (by omega), ht, by rwa [List.length_set]⟩
  have hheads := h.heads
  rw [heads_iff (by omega)] at hheads
  rw [heads_iff (by rw [List.length_set]; omega)]
  have hagree := set_agrees ws i t
  rwa [hagree i (by omega), hagree (i + 1) (by omega), hagree (i + 2) (by omega),
    hagree (i + 3) (by omega), hagree (i + 4) (by omega), hagree (i + 5) (by omega)]

/-- An entry that is there with another version in one entry is there without it. -/
theorem EntryAt.of_set (h : EntryAt ws i n v) (ht : Recordable t)
    (h' : EntryAt (ws.set (i + 6) t) j m u) (hne : j ≠ i) : EntryAt ws j m u := by
  have hagree := set_agrees ws i t
  have hends := h.ends
  have hapart := h.apart hagree (List.getElem?_set_self (by omega)) ht h' hne
  exact h'.congr List.length_set.symm fun k hk => (hagree _ (hapart k hk)).symm

theorem EntryAt.set_of_ne (h : EntryAt ws i n v) (hv : Recordable v) (ht : IsVersion t)
    (h' : EntryAt ws j m u) (hne : j ≠ i) : EntryAt (ws.set (i + 6) t) j m u := by
  have hagree := set_agrees ws i t
  have hapart := (h.set ht).apart (fun k hk => (hagree k hk).symm) h.version hv h' hne
  exact h'.congr List.length_set fun k hk => hagree _ (hapart k hk)

theorem EntryAt.unique (h : EntryAt ws i n v) (h' : EntryAt ws i m u) : n = m ∧ v = u := by
  have hends := h.ends
  have hn := ((heads_iff (by omega)).mp h.heads).2.2.1
  have hm := ((heads_iff (by omega)).mp h'.heads).2.2.1
  exact ⟨Option.some.inj (hn.symm.trans hm), Option.some.inj (h.version.symm.trans h'.version)⟩

end

/-! ### The version of an import -/

/-- The words behind the quotes of a text. -/
def wordsOf (cs : List Char) : List (List Char) :=
  (cut cs).2.map Prod.snd

/-- The first entry for a name in a row of words. -/
def FirstEntry (ws : List (List Char)) (i : ℕ) (n v : List Char) : Prop :=
  EntryAt ws i n v ∧ NoneBefore (fun m => m = n) ws i

theorem FirstEntry.unique {ws : List (List Char)} {i j : ℕ} {n v u : List Char}
    (h : FirstEntry ws i n v) (h' : FirstEntry ws j n u) : i = j ∧ v = u := by
  obtain hlt | rfl | hlt := Nat.lt_trichotomy i j
  · exact absurd h.1 (h'.2 i hlt n rfl v)
  · exact ⟨rfl, (h.1.unique h'.1).2⟩
  · exact absurd h'.1 (h.2 j hlt n rfl u)

/-- **A found entry is the first one in the words,** and another version in its place is another
word. -/
theorem findEntry_spec (text : String) {name : String} (hn : Unquoted name.toList) :
    match findEntry text name with
    | some e => ∃ i, FirstEntry (wordsOf text.toList) i name.toList e.version ∧
        ∀ t, Unquoted t →
          wordsOf (e.before ++ t ++ e.after) = (wordsOf text.toList).set (i + 6) t
    | none => ∀ i v, ¬ EntryAt (wordsOf text.toList) i name.toList v := by
  have hspec := find?_glue (ReadsNames.exactly hn) (wellCut_cut text.toList)
  have happend := find?_append (r := readExactly name.toList) (unquoted_cut text.toList)
    (glue (cut text.toList).2)
  rw [glue_cut] at happend
  rw [findEntry, happend]
  rcases hfind : Entry.find? (readExactly name.toList) (glue (cut text.toList).2) with - | e
  · rw [hfind] at hspec
    exact fun i v h => hspec (i + 1) i (Nat.lt_succ_self i) _ rfl v h
  · rw [hfind] at hspec
    obtain ⟨i, hfound, hfirst⟩ := hspec
    have hname : e.name = name.toList := hfound.kind
    obtain ⟨q, hq, hbefore⟩ := hfound.parts
    refine ⟨i, ⟨hname ▸ hfound.entry, hfirst⟩, fun t ht => ?_⟩
    obtain ⟨hlt, hqv⟩ := List.getElem?_eq_some_iff.mp hq
    have hset : (cut text.toList).2.set (i + 6) (q, t) =
        (cut text.toList).2.take (i + 6) ++ (q, t) :: (cut text.toList).2.drop (i + 7) := by
      rw [List.set_eq_take_append_cons_drop, if_pos hlt]
    have hquote : isQuote q = true := by
      have hmem := (wellCut_cut text.toList) _ (List.mem_of_getElem? hq)
      exact hmem.1
    have hcut : WellCut ((cut text.toList).2.set (i + 6) (q, t)) := by
      intro w hw
      obtain hw | rfl := List.mem_or_eq_of_mem_set hw
      · exact wellCut_cut text.toList w hw
      · exact ⟨hquote, ht⟩
    have hglue : (cut text.toList).1 ++ e.before ++ t ++ e.after =
        (cut text.toList).1 ++ glue ((cut text.toList).2.set (i + 6) (q, t)) := by
      simp [hset, hbefore, hfound.after]
    change wordsOf ((cut text.toList).1 ++ e.before ++ t ++ e.after) = _
    rw [hglue, wordsOf, cut_append (unquoted_cut _), cut_glue hcut, wordsOf, List.map_set]

section

variable {text text' name other tip : String}

theorem version?_eq_some_iff (hn : Unquoted name.toList) {v : String} :
    version? text name = some v ↔
      ∃ i, FirstEntry (wordsOf text.toList) i name.toList v.toList := by
  have hspec := findEntry_spec text hn
  rw [version?]
  rcases hfind : findEntry text name with - | e
  · rw [hfind] at hspec
    simp only [Option.map_none, reduceCtorEq, false_iff]
    exact fun ⟨i, hi⟩ => hspec i _ hi.1
  · rw [hfind] at hspec
    obtain ⟨i, hfirst, -⟩ := hspec
    simp only [Option.map_some, Option.some.injEq]
    constructor
    · rintro rfl
      exact ⟨i, by rwa [String.toList_ofList]⟩
    · rintro ⟨j, hj⟩
      rw [(hfirst.unique hj).2, String.ofList_toList]

/-- A version can be exchanged for one that is as long. -/
theorem exists_exchange {v : String} (h : version? text name = some v)
    (hsize : v.utf8ByteSize = tip.utf8ByteSize) : ∃ text', exchange text name tip = .ok text' := by
  obtain ⟨e, he, rfl⟩ := Option.map_eq_some_iff.mp h
  rw [exchange, he]
  exact ⟨_, if_neg (not_not_intro hsize)⟩

/-- A new version is another word in the place of the version of the first entry. -/
theorem wordsOf_exchange (hn : Unquoted name.toList) (htip : Unquoted tip.toList)
    (h : exchange text name tip = .ok text') :
    ∃ i v, FirstEntry (wordsOf text.toList) i name.toList v ∧
      wordsOf text'.toList = (wordsOf text.toList).set (i + 6) tip.toList := by
  have hspec := findEntry_spec text hn
  rw [exchange] at h
  rcases hfind : findEntry text name with - | e
  · simp [hfind] at h
  · rw [hfind] at hspec
    obtain ⟨i, hfirst, hwords⟩ := hspec
    rw [hfind] at h
    dsimp only at h
    split at h
    · cases h
    · obtain rfl := Except.ok.inj h
      exact ⟨i, e.version, hfirst, by rw [String.toList_ofList, hwords _ htip]⟩

/-- **Every other import has the version that it had.** -/
theorem version?_exchange_of_ne (hn : Unquoted name.toList) (hother : Unquoted other.toList)
    (hne : other ≠ name) (htip : Recordable tip.toList) (hold : version? text name ≠ some "name")
    (h : exchange text name tip = .ok text') : version? text' other = version? text other := by
  obtain ⟨i, v, hfirst, hwords⟩ := wordsOf_exchange hn htip.1.unquoted h
  have hv : Recordable v := by
    refine ⟨hfirst.1.isVersion, fun hv => hold ((version?_eq_some_iff hn).mpr ⟨i, ?_⟩)⟩
    rwa [← hv]
  -- an entry for the other name is none for this one, so it is not the one that changes
  have hplace : ∀ j u, EntryAt (wordsOf text.toList) j other.toList u → j ≠ i := by
    rintro j u hentry rfl
    exact hne (String.toList_inj.mp (hentry.unique hfirst.1).1)
  have hplace' : ∀ j u, EntryAt (wordsOf text'.toList) j other.toList u → j ≠ i := by
    rintro j u hentry rfl
    rw [hwords] at hentry
    exact hne (String.toList_inj.mp (hentry.unique (hfirst.1.set htip.1)).1)
  have hiff : ∀ j u, EntryAt (wordsOf text'.toList) j other.toList u ↔
      EntryAt (wordsOf text.toList) j other.toList u := by
    intro j u
    refine ⟨fun hentry => ?_, fun hentry => ?_⟩
    · have hj := hplace' j u hentry
      rw [hwords] at hentry
      exact hfirst.1.of_set htip hentry hj
    · rw [hwords]
      exact hfirst.1.set_of_ne hv htip.1 hentry (hplace j u hentry)
  refine Option.ext fun u => ?_
  rw [version?_eq_some_iff hother, version?_eq_some_iff hother]
  simp only [FirstEntry, NoneBefore, forall_eq, hiff]

end

/-! ### Commit ids -/

/-- Whether a character is a digit of a commit id. -/
def isHexDigit (c : Char) : Bool :=
  c.isDigit || ('a' ≤ c && c ≤ 'f')

/-- Hexadecimal digits, at least one of them. -/
def IsHex (cs : List Char) : Prop :=
  cs ≠ [] ∧ ∀ c ∈ cs, isHexDigit c = true

instance : DecidablePred IsHex := fun cs =>
  decidable_of_iff (cs ≠ [] ∧ cs.all isHexDigit = true) (by simp [IsHex])

theorem isVersionChar_of_isHexDigit {c : Char} (h : isHexDigit c = true) :
    isVersionChar c = true := by
  have hlower : c.isLower = (decide (c.val ≥ 'a'.val) && decide (c.val ≤ 'z'.val)) := rfl
  simp only [isHexDigit, isVersionChar, hlower, Bool.or_eq_true, Bool.and_eq_true,
    decide_eq_true_eq] at h ⊢
  obtain hdigit | ⟨hfrom, hto⟩ := h
  · exact .inr hdigit
  · exact .inl ⟨hfrom, UInt32.le_trans hto (by decide)⟩

theorem utf8Size_of_isHexDigit {c : Char} (h : isHexDigit c = true) : c.utf8Size = 1 := by
  simp only [isHexDigit, Char.isDigit, Bool.or_eq_true, Bool.and_eq_true, decide_eq_true_eq] at h
  rw [Char.utf8Size_eq_one_iff]
  obtain ⟨-, hto⟩ | ⟨-, hto⟩ := h
  · exact UInt32.le_trans hto (by decide)
  · exact UInt32.le_trans hto (by decide)

theorem IsHex.recordable {cs : List Char} (h : IsHex cs) : Recordable cs := by
  refine ⟨⟨h.1, fun c hc => isVersionChar_of_isHexDigit (h.2 c hc)⟩, ?_⟩
  rintro rfl
  exact absurd (h.2 'n' (by decide)) (by decide)

theorem utf8ByteSize_ofList {cs : List Char} (h : ∀ c ∈ cs, isHexDigit c = true) :
    (String.ofList cs).utf8ByteSize = cs.length := by
  induction cs with
  | nil => rfl
  | cons c cs ih =>
    obtain ⟨hc, hcs⟩ := List.forall_mem_cons.mp h
    rw [String.ofList_cons, String.utf8ByteSize_append, ih hcs, String.utf8ByteSize_singleton,
      utf8Size_of_isHexDigit hc, List.length_cons, Nat.add_comm]

end SuiteGate.Imports
