import SuiteGate.Gate.Selection
import SuiteGate.Proofs.Text.Fields
/-!
# Lists of tags

A list of tags is a text with commas, and what is asked for is the set of its entries.  A text can
be read entry by entry (`entriesOf_append`), blanks around it and entries of blanks add nothing
(`entriesOf_blanks_append`, `entriesOf_eq_nil_iff`), and no comma and no blank is left at the ends
of an entry (`IsEntry`).  So the texts that are shown for selections are read back
(`parse_display`), and two lists put together ask for what either of them asks for
(`parse_lists`).
-/

namespace SuiteGate.Gate.Selection

/-- What an entry of a list with commas can be: some text, without a comma and without white space
at its ends. -/
structure IsEntry (t : String) : Prop where
  ne_empty : t ≠ ""
  comma_not_mem : ',' ∉ t.toList
  not_isBlank_head : ∀ c ∈ t.toList.head?, Text.isBlank c = false
  not_isBlank_last : ∀ c ∈ t.toList.getLast?, Text.isBlank c = false

/-! ### Entries -/

section

variable {a t : String}

theorem mem_entriesOf_iff :
    t ∈ entriesOf a ↔ t ≠ "" ∧ ∃ field ∈ Text.split ',' a, Text.trim field = t := by
  simp [entriesOf, and_comm]

/-- **A list can be cut at any of its commas.** -/
theorem entriesOf_append (a b : String) :
    entriesOf (a ++ "," ++ b) = entriesOf a ++ entriesOf b := by
  have hcut : Text.split ',' (a ++ "," ++ b) = Text.split ',' a ++ Text.split ',' b :=
    Text.split_append ',' a b
  rw [entriesOf, hcut, List.map_append, List.filter_append]
  rfl

theorem isEntry_of_mem (h : t ∈ entriesOf a) : IsEntry t := by
  obtain ⟨hne, field, hfield, rfl⟩ := mem_entriesOf_iff.mp h
  obtain ⟨cs, hcs, rfl⟩ := List.mem_map.mp hfield
  refine ⟨hne, ?_, ?_, ?_⟩
  · intro hcomma
    rw [Text.trim, String.toList_ofList, String.toList_ofList] at hcomma
    exact Text.sep_not_mem_of_mem_splitChars hcs (Text.trimChars_subset cs hcomma)
  · intro c hc
    rw [Text.trim, String.toList_ofList] at hc
    exact Text.head?_trimChars hc
  · intro c hc
    rw [Text.trim, String.toList_ofList] at hc
    exact Text.getLast?_trimChars hc

/-- An entry has nothing around it that could be cut off. -/
theorem IsEntry.trim_eq (h : IsEntry t) : Text.trim t = t := by
  rw [Text.trim, Text.trimChars_eq_self h.not_isBlank_head h.not_isBlank_last,
    String.ofList_toList]

/-- **Entries with commas between them are read as they are.** -/
theorem entriesOf_join {entries : List String} (h : ∀ t ∈ entries, IsEntry t)
    (hne : entries ≠ []) : entriesOf (Text.join "," entries) = entries := by
  have hcut : Text.split ',' (Text.join "," entries) = entries :=
    Text.split_join (fun t ht => (h t ht).comma_not_mem) hne
  have htrim : entries.map Text.trim = entries :=
    (List.map_congr_left fun t ht => (h t ht).trim_eq).trans (List.map_id' entries)
  have hkeep : entries.filter (· ≠ "") = entries :=
    List.filter_eq_self.mpr fun t ht => by simpa using (h t ht).ne_empty
  rw [entriesOf, hcut, htrim, hkeep]

/-! ### Blanks and empty entries -/

theorem comma_not_mem_of_blank {cs : List Char} (h : ∀ c ∈ cs, Text.isBlank c = true) :
    ',' ∉ cs := by
  intro hcomma
  have hblank : Text.isBlank ',' = true := h ',' hcomma
  exact absurd hblank (by decide)

/-- The entries of a list are what is left of its fields. -/
theorem entriesOf_eq (a : String) :
    entriesOf a =
      (((Text.splitChars ',' a.toList).map Text.trimChars).map String.ofList).filter (· ≠ "") := by
  rw [entriesOf, Text.split, List.map_map, List.map_map]
  congr 2
  funext cs
  simp [Text.trim]

/-- **White space around a list adds nothing to it.** -/
theorem entriesOf_blanks_append {x y : String} (hx : ∀ c ∈ x.toList, Text.isBlank c = true)
    (hy : ∀ c ∈ y.toList, Text.isBlank c = true) (a : String) :
    entriesOf (x ++ a ++ y) = entriesOf a := by
  -- the blanks in front are cut off the first field, those behind off the last one
  obtain ⟨first, rest, ha, hxa⟩ :=
    Text.splitChars_append_left (comma_not_mem_of_blank hx) a.toList
  obtain ⟨init, last, hxa', hxay⟩ :=
    Text.splitChars_append_right (comma_not_mem_of_blank hy) (x.toList ++ a.toList)
  have hleft : (Text.splitChars ',' (x.toList ++ a.toList)).map Text.trimChars =
      (Text.splitChars ',' a.toList).map Text.trimChars := by
    rw [ha, hxa, List.map_cons, List.map_cons, Text.trimChars_append_left hx]
  have hright : (Text.splitChars ',' (x.toList ++ a.toList ++ y.toList)).map Text.trimChars =
      (Text.splitChars ',' (x.toList ++ a.toList)).map Text.trimChars := by
    rw [hxa', hxay, List.map_append, List.map_append, List.map_singleton, List.map_singleton,
      Text.trimChars_append_right hy]
  rw [entriesOf_eq, entriesOf_eq, String.toList_append, String.toList_append, hright, hleft]

/-- **A list without entries** is one of commas and white space. -/
theorem entriesOf_eq_nil_iff :
    entriesOf a = [] ↔ ∀ c ∈ a.toList, c = ',' ∨ Text.isBlank c = true := by
  have hfields : entriesOf a = [] ↔
      ∀ p ∈ Text.splitChars ',' a.toList, ∀ c ∈ p, Text.isBlank c = true := by
    simp only [entriesOf_eq, List.filter_eq_nil_iff, List.mem_map, forall_exists_index, and_imp,
      forall_apply_eq_imp_iff₂, ne_eq, decide_not, Bool.not_eq_true', decide_eq_false_iff_not,
      not_not, String.ofList_eq_empty_iff, Text.trimChars_eq_nil_iff]
  rw [hfields]
  constructor
  · intro h c hc
    by_cases hcomma : c = ','
    · exact .inl hcomma
    · obtain ⟨p, hp, hcp⟩ := (Text.mem_iff_mem_splitChars hcomma).mp hc
      exact .inr (h p hp c hcp)
  · intro h p hp c hc
    have hcomma : c ≠ ',' := fun e => Text.sep_not_mem_of_mem_splitChars hp (e ▸ hc)
    exact (h c ((Text.mem_iff_mem_splitChars hcomma).mpr ⟨p, hp, hc⟩)).resolve_left hcomma

end

/-! ### Selections -/

section

variable {a b t : String} {s : Selection}

theorem ext_tags {s s' : Selection} (h : s.tags = s'.tags) : s = s' := by
  cases s
  cases s'
  rw [mk.injEq]
  exact h

/-- **What is asked for** are the entries of the list. -/
theorem mem_tags_parse_iff : t ∈ (parse a).tags ↔ t ∈ entriesOf a := by
  rw [parse, ofList, Std.ExtTreeSet.mem_ofList, List.contains_iff_mem]

theorem parse_eq_of_mem_iff (h : ∀ t, t ∈ entriesOf a ↔ t ∈ entriesOf b) : parse a = parse b := by
  refine ext_tags (Std.ExtTreeSet.ext_mem fun t => ?_)
  rw [mem_tags_parse_iff, mem_tags_parse_iff, h]

theorem tags_parse_eq_empty_iff :
    (parse a).tags = ∅ ↔ ∀ c ∈ a.toList, c = ',' ∨ Text.isBlank c = true := by
  rw [Std.ExtTreeSet.eq_empty_iff_forall_not_mem, ← entriesOf_eq_nil_iff,
    List.eq_nil_iff_forall_not_mem]
  exact forall_congr' fun t => not_congr mem_tags_parse_iff

theorem tags_parse_append (a b : String) :
    (parse (a ++ "," ++ b)).tags = (parse a).tags ∪ (parse b).tags := by
  refine Std.ExtTreeSet.ext_mem fun t => ?_
  rw [Std.ExtTreeSet.mem_union_iff, mem_tags_parse_iff, mem_tags_parse_iff, mem_tags_parse_iff,
    entriesOf_append, List.mem_append]

/-- Every task is selected when none is asked for, and only then: a task may have no tags. -/
theorem selects_all_iff : (∀ taskTags, s.selects taskTags = true) ↔ s.tags = ∅ := by
  rw [← Std.ExtTreeSet.isEmpty_iff]
  constructor
  · intro h
    simpa [selects, isEmpty] using h []
  · intro h taskTags
    simp [selects, isEmpty, h]

/-- A task is selected by some tags when one of its tags is among them. -/
theorem selects_iff_exists_mem (h : s.tags ≠ ∅) {taskTags : List String} :
    s.selects taskTags = true ↔ ∃ t ∈ taskTags, t ∈ s.tags := by
  have hempty : s.isEmpty = false := by
    rw [isEmpty, Bool.eq_false_iff, ne_eq, Std.ExtTreeSet.isEmpty_iff]
    exact h
  rw [selects, hempty, Bool.false_or, List.any_eq_true]
  rfl

/-- **A selection of entries is read back from its text.** -/
theorem parse_display (hs : s.tags ≠ ∅) (h : ∀ t ∈ s.tags, IsEntry t) : parse s.display = s := by
  have hne : s.toList ≠ [] := fun hnil => hs (Std.ExtTreeSet.toList_eq_nil_iff.mp hnil)
  have hentries : ∀ t ∈ s.toList, IsEntry t := fun t ht =>
    h t (Std.ExtTreeSet.mem_toList.mp ht)
  have hempty : s.isEmpty ≠ true := fun he => hs (Std.ExtTreeSet.isEmpty_iff.mp he)
  rw [display, if_neg hempty]
  refine ext_tags (Std.ExtTreeSet.ext_mem fun t => ?_)
  rw [mem_tags_parse_iff, entriesOf_join hentries hne, toList, Std.ExtTreeSet.mem_toList]

/-- **Lists of tags put together ask for what either asks for,** and a list asks for what stands
between its commas.  So the order of lists, their repetition and the blanks and empty entries
between them do not matter; what is asked for are texts that can stand in a list; nothing, that is
everything, is asked for by commas and white space alone; and what is shown for a selection is read
back. -/
theorem parse_lists (a b : String) :
    (∀ t, t ∈ (parse a).tags ↔ t ≠ "" ∧ ∃ piece ∈ Text.split ',' a, Text.trim piece = t) ∧
    (parse (a ++ "," ++ b)).tags = (parse a).tags ∪ (parse b).tags ∧
    parse (a ++ "," ++ b) = parse (b ++ "," ++ a) ∧
    parse (a ++ "," ++ a) = parse a ∧
    (∀ blanks, (∀ c ∈ blanks.toList, c = ',' ∨ Text.isBlank c = true) →
      parse (a ++ "," ++ blanks) = parse a ∧ parse (blanks ++ "," ++ a) = parse a) ∧
    (∀ x y, (∀ c ∈ x.toList, Text.isBlank c = true) → (∀ c ∈ y.toList, Text.isBlank c = true) →
      parse (x ++ a ++ y) = parse a) ∧
    (∀ t ∈ (parse a).tags, IsEntry t) ∧
    ((parse a).tags = ∅ ↔ ∀ c ∈ a.toList, c = ',' ∨ Text.isBlank c = true) ∧
    ((∀ taskTags, (parse a).selects taskTags = true) ↔
      ∀ c ∈ a.toList, c = ',' ∨ Text.isBlank c = true) ∧
    ((parse a).tags ≠ ∅ → parse (parse a).display = parse a) ∧
    ((parse a).tags ≠ ∅ → (parse b).tags ≠ ∅ → ∀ taskTags,
      (parse (a ++ "," ++ b)).selects taskTags =
        ((parse a).selects taskTags || (parse b).selects taskTags)) := by
  have hentry : ∀ t ∈ (parse a).tags, IsEntry t := fun t ht =>
    isEntry_of_mem (mem_tags_parse_iff.mp ht)
  refine ⟨fun t => ?_, tags_parse_append a b, ?_, ?_, ?_, ?_, hentry, tags_parse_eq_empty_iff, ?_,
    ?_, ?_⟩
  · rw [mem_tags_parse_iff]
    simp [entriesOf, and_comm]
  · refine parse_eq_of_mem_iff fun t => ?_
    rw [entriesOf_append, entriesOf_append, List.mem_append, List.mem_append, or_comm]
  · refine parse_eq_of_mem_iff fun t => ?_
    rw [entriesOf_append, List.mem_append, or_self]
  · intro blanks hblanks
    have hnil : entriesOf blanks = [] := entriesOf_eq_nil_iff.mpr hblanks
    constructor
    · rw [parse, entriesOf_append, hnil, List.append_nil, parse]
    · rw [parse, entriesOf_append, hnil, List.nil_append, parse]
  · intro x y hx hy
    rw [parse, entriesOf_blanks_append hx hy, parse]
  · rw [selects_all_iff, tags_parse_eq_empty_iff]
  · intro hne
    exact parse_display hne hentry
  · intro ha hb taskTags
    have hboth : (parse (a ++ "," ++ b)).tags ≠ ∅ := by
      intro hnone
      rw [tags_parse_append, Std.ExtTreeSet.eq_empty_iff_forall_not_mem] at hnone
      refine ha (Std.ExtTreeSet.eq_empty_iff_forall_not_mem.mpr fun t ht => ?_)
      exact hnone t (Std.ExtTreeSet.mem_union_iff.mpr (.inl ht))
    rw [Bool.eq_iff_iff, Bool.or_eq_true, selects_iff_exists_mem hboth,
      selects_iff_exists_mem ha, selects_iff_exists_mem hb]
    simp only [tags_parse_append, Std.ExtTreeSet.mem_union_iff, and_or_left, exists_or]

/-- A list as it is written by hand, and what is shown for it. -/
example : entriesOf " style ,, python-svm,style," = ["style", "python-svm", "style"] ∧
    entriesOf " , ," = [] := by
  decide +kernel

end

end SuiteGate.Gate.Selection
