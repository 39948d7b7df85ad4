import Mathlib.Data.Nat.Find
import SuiteGate.Proofs.Imports.Entries
/-!
# Exchanging the version of an import

What an entry is does not depend on the reader of entries (`Entry.Stands`), and the entry that is
read is the first one that stands in the text (`findEntry_eq_some_iff`), whatever characters the
name of the import consists of.  So an exchange succeeds exactly if there is a first entry and its
version is as long as the new one, and then nothing but this version is changed (`exchange_spec`).

The new version is read back, because an exchange makes no entry for the name in front of the
first one.  All entries for a name have the same number of quotes, so one that begins earlier ends
earlier, too, and does not reach the version that is exchanged (`Entry.Stands.inside`).
-/

namespace SuiteGate.Imports

/-! ### Entries in a text -/

/-- A word between two quotes of either kind. -/
def IsQuoted (word x : List Char) : Prop :=
  ∃ q q', isQuote q = true ∧ isQuote q' = true ∧ x = q :: (word ++ [q'])

/-- An entry for a name up to its version: the quoted word `name`, a colon, white space, the quoted
name, a comma, white space, the quoted word `version`, a colon, white space, and a quote. -/
def IsOpening (n x : List Char) : Prop :=
  ∃ key m₁ name m₂ word m₃ q, IsQuoted "name".toList key ∧ IsMark ':' m₁ ∧ IsQuoted n name ∧
    IsMark ',' m₂ ∧ IsQuoted "version".toList word ∧ IsMark ':' m₃ ∧ isQuote q = true ∧
    x = key ++ m₁ ++ name ++ m₂ ++ word ++ m₃ ++ [q]

namespace Entry

/-- An entry stands in a text, its first quote at a place. -/
structure Stands (e : Entry) (cs : List Char) (i : ℕ) : Prop where
  text : cs = e.before ++ e.version ++ e.after
  opening : IsOpening e.name (e.before.drop i)
  isVersion : IsVersion e.version
  closed : ∃ q rest, isQuote q = true ∧ e.after = q :: rest

/-- An entry is the first one for its name in a text. -/
def IsFirst (e : Entry) (cs : List Char) : Prop :=
  ∃ i, e.Stands cs i ∧ ∀ (e' : Entry) (j : ℕ), e'.name = e.name → e'.Stands cs j → i ≤ j

end Entry

theorem isOpening_iff {n x : List Char} :
    IsOpening n x ↔ ∃ ws q, (∀ w ∈ ws, isQuote w.1 = true) ∧ Heads n (ws.map Prod.snd) ∧
      isQuote q = true ∧ x = glue ws ++ [q] := by
  constructor
  · rintro ⟨_, m₁, _, m₂, _, m₃, q, ⟨q₀, q₁, h₀, h₁, rfl⟩, hm₁, ⟨q₂, q₃, h₂, h₃, rfl⟩, hm₂,
      ⟨q₄, q₅, h₄, h₅, rfl⟩, hm₃, hq, rfl⟩
    refine ⟨[(q₀, "name".toList), (q₁, m₁), (q₂, n), (q₃, m₂), (q₄, "version".toList), (q₅, m₃)],
      q, ?_, ⟨m₁, m₂, m₃, hm₁, hm₂, hm₃, rfl⟩, hq, ?_⟩
    · simp [h₀, h₁, h₂, h₃, h₄, h₅]
    · simp
  · rintro ⟨ws, q, hws, ⟨m₁, m₂, m₃, hm₁, hm₂, hm₃, hwords⟩, hq, rfl⟩
    obtain ⟨q₀, q₁, q₂, q₃, q₄, q₅, rfl⟩ : ∃ q₀ q₁ q₂ q₃ q₄ q₅, ws = [(q₀, "name".toList), (q₁, m₁),
        (q₂, n), (q₃, m₂), (q₄, "version".toList), (q₅, m₃)] := by
      simp only [List.map_eq_cons_iff, List.map_eq_nil_iff] at hwords
      grind
    simp only [List.forall_mem_cons, List.not_mem_nil] at hws
    obtain ⟨h₀, h₁, h₂, h₃, h₄, h₅, -⟩ := hws
    exact ⟨_, m₁, _, m₂, _, m₃, q, ⟨q₀, q₁, h₀, h₁, rfl⟩, hm₁, ⟨q₂, q₃, h₂, h₃, rfl⟩, hm₂,
      ⟨q₄, q₅, h₄, h₅, rfl⟩, hm₃, hq, by simp⟩

/-! ### The entry that is read -/

section

variable {r : Reader} {kind : List Char → Prop} {n cs : List Char} {e : Entry} {i : ℕ}

theorem at?_eq_some_iff_stands (hr : ReadsToQuote r kind) :
    Entry.at? r cs = some e ↔ kind e.name ∧ e.Stands cs 0 := by
  rw [at?_eq_some_iff hr]
  constructor
  · rintro ⟨ws, q, q', rest, hws, hheads, hname, hq, hversion, hq', hbefore, hafter, htext⟩
    exact ⟨hname, htext, isOpening_iff.mpr ⟨ws, q, hws, hheads, hq, hbefore⟩, hversion,
      q', rest, hq', hafter⟩
  · rintro ⟨hname, htext, hopening, hversion, q', rest, hq', hafter⟩
    obtain ⟨ws, q, hws, hheads, hq, hbefore⟩ := isOpening_iff.mp hopening
    exact ⟨ws, q, q', rest, hws, hheads, hname, hq, hversion, hq', hbefore, hafter, htext⟩

theorem IsOpening.ne_nil {x : List Char} (h : IsOpening n x) : x ≠ [] := by
  obtain ⟨key, m₁, name, m₂, word, m₃, q, -, -, -, -, -, -, -, rfl⟩ := h
  simp

theorem Entry.Stands.lt_length (h : e.Stands cs i) : i < e.before.length := by
  have hne := h.opening.ne_nil
  rw [Ne, List.drop_eq_nil_iff] at hne
  omega

/-- An entry stands one place further on behind one more character. -/
theorem Entry.stands_cons_iff {c : Char} :
    Entry.Stands { e with before := c :: e.before } (c :: cs) (i + 1) ↔ e.Stands cs i := by
  constructor
  · rintro ⟨htext, hopening, hversion, hclosed⟩
    exact ⟨by simpa using htext, hopening, hversion, hclosed⟩
  · rintro ⟨htext, hopening, hversion, hclosed⟩
    exact ⟨by simp [htext], hopening, hversion, hclosed⟩

/-- An entry that does not stand at the start of a text stands in the rest of it. -/
theorem Entry.Stands.exists_cons {c : Char} (h : e.Stands (c :: cs) (i + 1)) :
    ∃ e' : Entry, e = { e' with before := c :: e'.before } ∧ e'.Stands cs i := by
  obtain ⟨name, before, version, after⟩ := e
  have hlength := h.lt_length
  cases before with
  | nil => simp at hlength
  | cons d before =>
    obtain rfl : c = d := by simpa using congrArg List.head? h.text
    exact ⟨⟨name, before, version, after⟩, rfl, stands_cons_iff.mp h⟩

/-- **The entry that is read** is the first one in the text whose name is of the kind. -/
theorem find?_eq_some_iff (hr : ReadsToQuote r kind) :
    Entry.find? r cs = some e ↔ kind e.name ∧
      ∃ i, e.Stands cs i ∧ ∀ (e' : Entry) (j : ℕ), kind e'.name → e'.Stands cs j → i ≤ j := by
  induction cs generalizing e with
  | nil =>
    simp only [Entry.find?, reduceCtorEq, false_iff]
    rintro ⟨-, i, h, -⟩
    have := h.lt_length
    have := congrArg List.length h.text
    simp at this
    omega
  | cons c cs ih =>
    rw [Entry.find?]
    rcases hat : Entry.at? r (c :: cs) with - | e₀
    · -- no entry of the kind stands at the start
      have hnone : ∀ e' : Entry, kind e'.name → ¬ e'.Stands (c :: cs) 0 := by
        intro e' hname hstands
        have := (at?_eq_some_iff_stands hr).mpr ⟨hname, hstands⟩
        simp [hat] at this
      simp only [Option.map_eq_some_iff, ih]
      constructor
      · rintro ⟨e₁, ⟨hname, i, hstands, hfirst⟩, rfl⟩
        refine ⟨hname, i + 1, Entry.stands_cons_iff.mpr hstands, fun e' j hname' hstands' => ?_⟩
        cases j with
        | zero => exact absurd hstands' (hnone e' hname')
        | succ j =>
          obtain ⟨e'', rfl, h⟩ := hstands'.exists_cons
          exact Nat.succ_le_succ (hfirst e'' j hname' h)
      · rintro ⟨hname, i, hstands, hfirst⟩
        cases i with
        | zero => exact absurd hstands (hnone e hname)
        | succ i =>
          obtain ⟨e₁, rfl, h⟩ := hstands.exists_cons
          refine ⟨e₁, ⟨hname, i, h, fun e' j hname' hstands' => ?_⟩, rfl⟩
          exact Nat.le_of_succ_le_succ
            (hfirst { e' with before := c :: e'.before } (j + 1) hname'
              (Entry.stands_cons_iff.mpr hstands'))
    · -- one stands at the start, so it is the first
      obtain ⟨hname, hstands⟩ := (at?_eq_some_iff_stands hr).mp hat
      simp only [Option.some.injEq]
      constructor
      · rintro rfl
        exact ⟨hname, 0, hstands, fun _ _ _ _ => Nat.zero_le _⟩
      · rintro ⟨hname', i, hstands', hfirst⟩
        obtain rfl : i = 0 := Nat.le_zero.mp (hfirst e₀ 0 hname hstands)
        have := (at?_eq_some_iff_stands hr).mpr ⟨hname', hstands'⟩
        exact Option.some.inj (hat.symm.trans this)

/-- Of the entries whose names are of a kind one is the first. -/
theorem Entry.Stands.exists_first (h : e.Stands cs i) (hname : kind e.name) :
    ∃ (e₀ : Entry) (i₀ : ℕ), kind e₀.name ∧ e₀.Stands cs i₀ ∧
      ∀ (e' : Entry) (j : ℕ), kind e'.name → e'.Stands cs j → i₀ ≤ j := by
  classical
  have hsome : ∃ i, ∃ e : Entry, kind e.name ∧ e.Stands cs i := ⟨i, e, hname, h⟩
  obtain ⟨e₀, hname₀, h₀⟩ := Nat.find_spec hsome
  exact ⟨e₀, _, hname₀, h₀, fun e' j hname' h' => Nat.find_min' hsome ⟨e', hname', h'⟩⟩

/-- Nothing is read exactly if no entry of the kind stands in the text. -/
theorem find?_eq_none_iff (hr : ReadsToQuote r kind) :
    Entry.find? r cs = none ↔ ∀ (e : Entry) (i : ℕ), kind e.name → ¬ e.Stands cs i := by
  constructor
  · intro hnone e i hname hstands
    obtain ⟨e₀, i₀, hname₀, hfirst⟩ := hstands.exists_first hname
    have hread : Entry.find? r cs = some e₀ := (find?_eq_some_iff hr).mpr ⟨hname₀, i₀, hfirst⟩
    rw [hnone] at hread
    cases hread
  · intro hall
    cases hfind : Entry.find? r cs with
    | none => rfl
    | some e =>
      obtain ⟨hname, i, hstands, -⟩ := (find?_eq_some_iff hr).mp hfind
      exact absurd hstands (hall e i hname)

end

theorem findEntry_eq_some_iff {text name : String} {e : Entry} :
    findEntry text name = some e ↔ e.name = name.toList ∧ e.IsFirst text.toList := by
  rw [findEntry, find?_eq_some_iff (.exactly _)]
  refine and_congr_right fun hname => ?_
  rw [Entry.IsFirst, hname]

theorem findEntry_eq_none_iff {text name : String} :
    findEntry text name = none ↔
      ∀ (e : Entry) (i : ℕ), e.name = name.toList → ¬ e.Stands text.toList i :=
  find?_eq_none_iff (.exactly _)

/-! ### Entries that begin earlier -/

theorem countP_isQuote_of_unquoted {cs : List Char} (h : Unquoted cs) :
    cs.countP isQuote = 0 := by
  rw [List.countP_eq_zero]
  exact fun c hc => by simp [h c hc]

/-- All entries for a name have the same number of quotes. -/
theorem IsOpening.countP {n x : List Char} (h : IsOpening n x) :
    x.countP isQuote = n.countP isQuote + 7 := by
  obtain ⟨_, m₁, _, m₂, _, m₃, q, ⟨q₀, q₁, h₀, h₁, rfl⟩, hm₁, ⟨q₂, q₃, h₂, h₃, rfl⟩, hm₂,
    ⟨q₄, q₅, h₄, h₅, rfl⟩, hm₃, hq, rfl⟩ := h
  have hwords : ("name".toList).countP isQuote = 0 ∧ ("version".toList).countP isQuote = 0 := by
    decide
  simp only [List.countP_append, List.countP_cons, List.countP_nil, h₀, h₁, h₂, h₃, h₄, h₅, hq,
    hwords, countP_isQuote_of_unquoted (hm₁.unquoted (by decide)),
    countP_isQuote_of_unquoted (hm₂.unquoted (by decide)),
    countP_isQuote_of_unquoted (hm₃.unquoted (by decide))]
  simp only [if_true]
  omega

theorem IsOpening.exists_cons {n x : List Char} (h : IsOpening n x) :
    ∃ q y, isQuote q = true ∧ x = q :: y := by
  obtain ⟨_, m₁, name, m₂, word, m₃, q, ⟨q₀, q₁, h₀, -, rfl⟩, -, -, -, -, -, -, rfl⟩ := h
  exact ⟨q₀, _, h₀, rfl⟩

namespace Entry.Stands

variable {cs : List Char} {e e' : Entry} {i j : ℕ}

/-- The quotes in front of the version of an entry. -/
theorem countP_before (h : e.Stands cs i) :
    e.before.countP isQuote = (cs.take i).countP isQuote + (e.name.countP isQuote + 7) := by
  have htake : cs.take i = e.before.take i := by
    rw [h.text, List.append_assoc, List.take_append_of_le_length (Nat.le_of_lt h.lt_length)]
  rw [htake, ← h.opening.countP, ← List.countP_append, List.take_append_drop]

/-- The first quote of an entry. -/
theorem exists_quote (h : e.Stands cs i) : ∃ q rest, isQuote q = true ∧ cs.drop i = q :: rest := by
  obtain ⟨q, y, hq, hy⟩ := h.opening.exists_cons
  refine ⟨q, y ++ (e.version ++ e.after), hq, ?_⟩
  rw [h.text, List.append_assoc, List.drop_append_of_le_length (Nat.le_of_lt h.lt_length), hy,
    List.cons_append]

/-- **An entry that begins earlier** than another one whose name has as many quotes ends in front of
the other's version. -/
theorem inside (h : e.Stands cs i) (h' : e'.Stands cs j)
    (hname : e'.name.countP isQuote = e.name.countP isQuote) (hji : j < i) :
    ∃ q rest, isQuote q = true ∧ e.before = e'.before ++ e'.version ++ q :: rest := by
  -- there is one more quote in front of the later entry
  have hquotes : (cs.take j).countP isQuote < (cs.take i).countP isQuote := by
    obtain ⟨q, rest, hq, hdrop⟩ := h'.exists_quote
    obtain ⟨k, rfl⟩ := Nat.exists_eq_add_of_lt hji
    rw [Nat.add_assoc, List.take_add, hdrop, List.take_succ_cons, List.countP_append,
      List.countP_cons, if_pos hq]
    omega
  have hbefore : (e'.before ++ e'.version).countP isQuote < e.before.countP isQuote := by
    rw [List.countP_append, countP_isQuote_of_unquoted h'.isVersion.unquoted, h.countP_before,
      h'.countP_before, hname]
    omega
  obtain ⟨q, rest, hq, hafter⟩ := h'.closed
  have htext : e.before ++ (e.version ++ e.after) = e'.before ++ e'.version ++ q :: rest := by
    rw [← hafter, ← List.append_assoc, ← h.text, h'.text]
  obtain ⟨more, hmore, -⟩ | ⟨more, hmore, hrest⟩ := List.append_eq_append_iff.mp htext
  · -- the later entry would have no more quotes than the earlier one
    rw [hmore, List.countP_append] at hbefore
    omega
  · cases more with
    | nil =>
      rw [hmore, List.append_nil] at hbefore
      omega
    | cons d more =>
      obtain ⟨rfl, -⟩ := List.cons.inj hrest
      exact ⟨q, more, hq, hmore⟩

/-- An entry with another version stands where it stood. -/
theorem exchange (h : e.Stands cs i) {t : List Char} (ht : IsVersion t) :
    { e with version := t }.Stands (e.before ++ t ++ e.after) i :=
  ⟨rfl, h.opening, ht, h.closed⟩

/-- An entry that begins earlier and stands there with another version stood there before. -/
theorem exists_of_exchange (h : e.Stands cs i) {t : List Char} (ht : IsVersion t)
    (h' : e'.Stands (e.before ++ t ++ e.after) j)
    (hname : e'.name.countP isQuote = e.name.countP isQuote) (hji : j < i) :
    ∃ after, { e' with after }.Stands cs j := by
  obtain ⟨q, rest, hq, hbefore⟩ := (h.exchange ht).inside h' hname hji
  refine ⟨q :: (rest ++ e.version ++ e.after), ?_, h'.opening, h'.isVersion, q, _, hq, rfl⟩
  rw [h.text, show e.before = _ from hbefore]
  simp

end Entry.Stands

/-- **The first entry stays the first one** with another version. -/
theorem Entry.IsFirst.exchange {cs t : List Char} {e : Entry} (h : e.IsFirst cs)
    (ht : IsVersion t) : { e with version := t }.IsFirst (e.before ++ t ++ e.after) := by
  obtain ⟨i, hstands, hfirst⟩ := h
  refine ⟨i, hstands.exchange ht, fun e' j hname h' => Nat.le_of_not_lt fun hji => ?_⟩
  obtain ⟨after, hearlier⟩ := hstands.exists_of_exchange ht h' (congrArg _ hname) hji
  exact Nat.not_le_of_lt hji (hfirst { e' with after } j hname hearlier)

/-! ### Exchanging a version -/

section

variable {text text' name tip : String} {e : Entry}

theorem exchange_eq_ok_iff :
    exchange text name tip = .ok text' ↔
      ∃ e : Entry, (e.name = name.toList ∧ e.IsFirst text.toList) ∧
        (String.ofList e.version).utf8ByteSize = tip.utf8ByteSize ∧
        text' = String.ofList (e.before ++ tip.toList ++ e.after) := by
  simp only [← findEntry_eq_some_iff]
  rw [exchange]
  rcases findEntry text name with - | e
  · simp
  · by_cases hsize : (String.ofList e.version).utf8ByteSize = tip.utf8ByteSize
    · simp [hsize, eq_comm]
    · simp [hsize]

theorem version?_eq_of_isFirst (hname : e.name = name.toList) (h : e.IsFirst text.toList) :
    version? text name = some (String.ofList e.version) := by
  rw [version?, findEntry_eq_some_iff.mpr ⟨hname, h⟩, Option.map_some]

/-- **The new version is the version of the import.** -/
theorem version?_exchange_self (htip : IsVersion tip.toList)
    (h : exchange text name tip = .ok text') : version? text' name = some tip := by
  obtain ⟨e, ⟨hname, hfirst⟩, -, rfl⟩ := exchange_eq_ok_iff.mp h
  have hnew : ({ e with version := tip.toList } : Entry).IsFirst
      (String.ofList (e.before ++ tip.toList ++ e.after)).toList := by
    rw [String.toList_ofList]
    exact hfirst.exchange htip
  have hread := version?_eq_of_isFirst (e := { e with version := tip.toList }) hname hnew
  rwa [String.ofList_toList] at hread

theorem utf8ByteSize_parts {cs ds fs : List Char} :
    (String.ofList (cs ++ ds ++ fs)).utf8ByteSize =
      (String.ofList cs).utf8ByteSize + (String.ofList ds).utf8ByteSize +
        (String.ofList fs).utf8ByteSize := by
  rw [String.ofList_append, String.ofList_append, String.utf8ByteSize_append,
    String.utf8ByteSize_append]

/-- A text that is as long as a version is not empty. -/
theorem IsVersion.of_utf8ByteSize {v : List Char} (hv : IsVersion v)
    (htip : ∀ c ∈ tip.toList, isVersionChar c = true)
    (hsize : (String.ofList v).utf8ByteSize = tip.utf8ByteSize) : IsVersion tip.toList := by
  refine ⟨fun hempty => hv.1 ?_, htip⟩
  obtain rfl : tip = "" := String.toList_eq_nil_iff.mp hempty
  have hnone : String.ofList v = "" := String.utf8ByteSize_eq_zero_iff.mp hsize
  exact String.ofList_eq_empty_iff.mp hnone

end

/-- **What an exchange does** to a text in which the given entry is the first one for a name.  Only
the version of this entry changes; its length does not.  The new version is read back, and a second
exchange for the same version changes nothing.  Other imports keep their versions if names hold no
quotes and the old and the new version are commit ids. -/
structure Exchanged (text name tip text' : String) (e : Entry) : Prop where
  before : text.toList = e.before ++ e.version ++ e.after
  after : text'.toList = e.before ++ tip.toList ++ e.after
  size : text'.utf8ByteSize = text.utf8ByteSize
  version : version? text' name = some tip
  again : exchange text' name tip = .ok text'
  others : Unquoted name.toList → IsHex e.version → IsHex tip.toList →
    ∀ other, other ≠ name → Unquoted other.toList → version? text' other = version? text other

/-- **An exchange** succeeds exactly if there is an entry for the name and the version of the first
one is as long as the new one, and then changes only this version. -/
theorem exchange_spec {text name tip : String} (htip : ∀ c ∈ tip.toList, isVersionChar c = true) :
    ((∃ text', exchange text name tip = .ok text') ↔
      ∃ e : Entry, (e.name = name.toList ∧ e.IsFirst text.toList) ∧
        (String.ofList e.version).utf8ByteSize = tip.utf8ByteSize) ∧
    ∀ text', exchange text name tip = .ok text' →
      ∃ e : Entry, (e.name = name.toList ∧ e.IsFirst text.toList) ∧
        Exchanged text name tip text' e := by
  refine ⟨?_, fun text' h => ?_⟩
  · simp only [exchange_eq_ok_iff]
    exact ⟨fun ⟨_, e, he, hsize, _⟩ => ⟨e, he, hsize⟩, fun ⟨e, he, hsize⟩ => ⟨_, e, he, hsize, rfl⟩⟩
  · obtain ⟨e, ⟨hname, hfirst⟩, hsize, htext'⟩ := exchange_eq_ok_iff.mp h
    obtain ⟨i, hstands, -⟩ := id hfirst
    have hversion : IsVersion tip.toList := hstands.isVersion.of_utf8ByteSize htip hsize
    have hafter : text'.toList = e.before ++ tip.toList ++ e.after := by
      rw [htext', String.toList_ofList]
    -- the entry with the new version is the first one now
    have hnew : ({ e with version := tip.toList } : Entry).IsFirst text'.toList :=
      hafter ▸ hfirst.exchange hversion
    refine ⟨e, ⟨hname, hfirst⟩, hstands.text, hafter, ?_, version?_exchange_self hversion h, ?_, ?_⟩
    · rw [htext', ← String.ofList_toList (s := text), hstands.text, utf8ByteSize_parts,
        utf8ByteSize_parts, String.ofList_toList, hsize]
    · refine exchange_eq_ok_iff.mpr ⟨{ e with version := tip.toList }, ⟨hname, hnew⟩, ?_, htext'⟩
      exact congrArg String.utf8ByteSize String.ofList_toList
    · intro hn hhex htiphex other hne hother
      refine version?_exchange_of_ne hn hother hne htiphex.recordable ?_ h
      rw [version?_eq_of_isFirst hname hfirst]
      intro hword
      refine hhex.recordable.2 ?_
      rw [← String.toList_ofList (l := e.version), Option.some.inj hword]

/-- A text with an entry each for `sulong` and `regex`, in quotes of either kind. -/
def pairedText (sulong : String) : String :=
  "\"name\": \"sulong\", \"version\": \"" ++ sulong ++ "\"\n'name':  'regex', 'version': 'a1'"

theorem exchange_spec_paired :
    (∀ c ∈ "b2c3".toList, isVersionChar c = true) ∧
      exchange (pairedText "a1f0") "sulong" "b2c3" = .ok (pairedText "b2c3") ∧
      (pairedText "b2c3").utf8ByteSize = (pairedText "a1f0").utf8ByteSize ∧
      version? (pairedText "b2c3") "sulong" = some "b2c3" ∧
      exchange (pairedText "b2c3") "sulong" "b2c3" = .ok (pairedText "b2c3") ∧
      version? (pairedText "b2c3") "regex" = version? (pairedText "a1f0") "regex" := by
  have htip : ∀ c ∈ "b2c3".toList, isVersionChar c = true := List.all_eq_true.mp (by decide)
  have hok : exchange (pairedText "a1f0") "sulong" "b2c3" = .ok (pairedText "b2c3") := by
    decide +kernel
  obtain ⟨e, ⟨hname, hfirst⟩, h⟩ := (exchange_spec htip).2 _ hok
  have hold : e.version = "a1f0".toList := by
    have hread := version?_eq_of_isFirst hname hfirst
    rw [show version? (pairedText "a1f0") "sulong" = some "a1f0" by decide +kernel,
      Option.some.injEq] at hread
    rw [hread, String.toList_ofList]
  have hregex : version? (pairedText "b2c3") "regex" = version? (pairedText "a1f0") "regex" :=
    h.others (by decide) (hold ▸ by decide) (by decide) "regex" (by decide) (by decide)
  exact ⟨htip, hok, h.size, h.version, h.again, hregex⟩

/-- A new version `name` is taken for the first word of an entry. -/
example :
    let text := "'name': 'x', 'version': 'abcd': 'y', 'version': '12'"
    let text' := "'name': 'x', 'version': 'name': 'y', 'version': '12'"
    exchange text "x" "name" = .ok text' ∧ version? text "y" = none ∧
      version? text' "y" = some "12" := by
  decide +kernel

end SuiteGate.Imports
