import SuiteGate.Proofs.Imports.Exchanges
/-!
# The revision of the framework

The revision of the framework is read in another way than the version of an import: all entries of
a text are read, whatever their names, each one behind the one before (`Entry.all`), and the first
of these is taken that is for one of the imports that stand for the framework.

Both ways agree on a text if no entry is lost when entries are read one after the other.  Of two
entries the later one begins behind the version of the earlier one (`Entry.Stands.closing_le`), so
they can share a single quote at most, the one that ends the earlier and begins the later entry.
If the first entry for the framework begins with a quote of its own, it is among the entries that
are read, and it is the first of them that is for the framework (`Entry.find?_all`).
-/

namespace SuiteGate.Imports

variable {r : Reader} {kind : List Char → Prop} {cs l : List Char} {e e' : Entry} {i j n : ℕ}

/-! ### Entries behind a part of a text -/

namespace Entry

/-- An entry with more text before it. -/
def behind (l : List Char) (e : Entry) : Entry :=
  { e with before := l ++ e.before }

/-- The place of the quote that ends an entry. -/
def closing (e : Entry) : ℕ :=
  e.before.length + e.version.length

@[simp]
theorem closing_behind : (e.behind l).closing = l.length + e.closing := by
  simp only [closing, behind, List.length_append]
  omega

theorem behind_append {l l' : List Char} : e.behind (l ++ l') = (e.behind l').behind l := by
  simp [behind]

theorem stands_behind_iff : (e.behind l).Stands (l ++ cs) (l.length + i) ↔ e.Stands cs i := by
  induction l with
  | nil => simp [behind]
  | cons c l ih =>
    rw [List.length_cons, Nat.add_right_comm, ← ih]
    exact stands_cons_iff (e := e.behind l)

/-- An entry that begins behind a part of a text stands in the rest of it. -/
theorem Stands.exists_behind (h : e.Stands (l ++ cs) (l.length + i)) :
    ∃ e' : Entry, e = e'.behind l ∧ e'.Stands cs i := by
  induction l generalizing e with
  | nil => exact ⟨e, rfl, by simpa using h⟩
  | cons c l ih =>
    rw [List.length_cons, Nat.add_right_comm] at h
    obtain ⟨e₁, rfl, h₁⟩ := h.exists_cons
    obtain ⟨e', rfl, h'⟩ := ih h₁
    exact ⟨e', rfl, h'⟩

theorem Stands.lt_length_text (h : e.Stands cs i) : i < cs.length := by
  have hlt := h.lt_length
  rw [h.text, List.append_assoc, List.length_append]
  omega

/-- An entry stands at the start of what is left of a text at its place. -/
theorem Stands.exists_drop (h : e.Stands cs i) :
    ∃ e' : Entry, e = e'.behind (cs.take i) ∧ e'.Stands (cs.drop i) 0 := by
  have hlength : (cs.take i).length = i := List.length_take_of_le (Nat.le_of_lt h.lt_length_text)
  refine Stands.exists_behind ?_
  rwa [List.take_append_drop, hlength]

/-- There is one entry of a kind at a place. -/
theorem Stands.unique (hr : ReadsToQuote r kind) (h : e.Stands cs i) (h' : e'.Stands cs i)
    (hname : kind e.name) (hname' : kind e'.name) : e = e' := by
  obtain ⟨e₁, rfl, h₁⟩ := h.exists_drop
  obtain ⟨e₁', rfl, h₁'⟩ := h'.exists_drop
  have hread := (at?_eq_some_iff_stands (e := e₁) hr).mpr ⟨hname, h₁⟩
  have hread' := (at?_eq_some_iff_stands (e := e₁') hr).mpr ⟨hname', h₁'⟩
  obtain rfl := Option.some.inj (hread.symm.trans hread')
  rfl

/-- What all entries in a text satisfy can be found out by reading at each place. -/
theorem forall_stands {p : Entry → ℕ → Prop} (hr : ReadsToQuote r kind)
    (h : ∀ i < cs.length, ∀ e ∈ Entry.at? r (cs.drop i), p (e.behind (cs.take i)) i) :
    ∀ (e : Entry) (i : ℕ), kind e.name → e.Stands cs i → p e i := by
  intro e i hname hstands
  obtain ⟨e', rfl, h'⟩ := hstands.exists_drop
  exact h i hstands.lt_length_text e' ((at?_eq_some_iff_stands hr).mpr ⟨hname, h'⟩)

end Entry

/-! ### Entries do not overlap -/

/-- A quote among quotes and words is the quote of one of the words. -/
theorem exists_take_of_glue {ws : List QuotedWord} (hws : WellCut ws) {q : Char}
    (hq : isQuote q = true) {rest : List Char} (h : glue ws = l ++ q :: rest) :
    ∃ k, l = glue (ws.take k) ∧ q :: rest = glue (ws.drop k) := by
  induction ws generalizing l with
  | nil => simp at h
  | cons w ws ih =>
    -- what is in front of the quote is empty, or the first quote and its word are part of it
    obtain ⟨⟨-, hw⟩, hws⟩ := wellCut_cons.mp hws
    cases l with
    | nil => exact ⟨0, rfl, h.symm⟩
    | cons c l =>
      obtain ⟨hc, h⟩ := List.cons.inj h
      obtain ⟨l', rfl, h'⟩ | ⟨l', hl', h'⟩ := List.append_eq_append_iff.mp h
      · obtain ⟨k, rfl, hrest⟩ := ih hws h'
        exact ⟨k + 1, by simp [hc], hrest⟩
      · cases l' with
        | nil =>
          obtain ⟨k, hk, hrest⟩ := ih hws (l := []) h'.symm
          refine ⟨k + 1, ?_, hrest⟩
          simp [hc, hl', ← hk]
        | cons d l' =>
          -- the quote would be a character of the word
          obtain ⟨rfl, -⟩ := List.cons.inj h'
          have hmem : q ∈ w.2 := by simp [hl']
          rw [hw q hmem] at hq
          cases hq

namespace Entry

/-- A text that begins with an entry consists of quotes and words, the first seven of which are
the entry's. -/
theorem Stands.exists_glue (h : e.Stands cs 0) (hname : Unquoted e.name) :
    ∃ ws, WellCut ws ∧ glue ws = cs ∧ Found (fun m => m = e.name) ws 0 e := by
  obtain ⟨q, rest, hq, hrest⟩ := h.exists_quote
  obtain rfl : cs = q :: rest := hrest
  have hglue : glue (cut (q :: rest)).2 = q :: rest := by
    rw [cut_cons_of_isQuote hq]
    exact congrArg (q :: ·) (glue_cut rest)
  refine ⟨_, wellCut_cut _, hglue, (at?_glue (.exactly hname) (wellCut_cut _)).mp ?_⟩
  rw [hglue]
  exact (at?_eq_some_iff_stands (.exactly _)).mpr ⟨rfl, h⟩

/-- The seven words of an entry reach up to the quote that ends it. -/
theorem closing_eq_of_found {ws : List QuotedWord} (h : Found kind ws 0 e) :
    e.closing = (glue (ws.take 7)).length := by
  obtain ⟨q, hq, hbefore⟩ := h.parts
  rw [Nat.zero_add] at hq hbefore
  rw [List.take_add_one, hq, Option.toList_some, closing, hbefore]
  simp only [glue_append, glue_cons, glue_nil, List.length_append, List.length_cons,
    List.length_nil]
  omega

theorem Stands.closing_le_of_zero (h : e.Stands cs 0) (h' : e'.Stands cs i)
    (hname : Unquoted e.name) (hname' : Unquoted e'.name) (hversion : e.version ≠ "name".toList)
    (hi : 0 < i) : e.closing ≤ i := by
  obtain ⟨ws, hws, rfl, hfound⟩ := h.exists_glue hname
  -- the later entry is a row of words, too
  obtain ⟨q, rest, hq, hdrop⟩ := h'.exists_quote
  obtain ⟨k, htake, hrest⟩ := exists_take_of_glue (l := (glue ws).take i) hws hq
    (by rw [← hdrop, List.take_append_drop])
  have hplace : (glue (ws.take k)).length = i := by
    rw [← htake, List.length_take_of_le (Nat.le_of_lt h'.lt_length_text)]
  obtain ⟨e₁, rfl, h₁⟩ := h'.exists_drop
  rw [hdrop, hrest] at h₁
  have hwords : WellCut (ws.drop k) := fun w hw => hws w (List.mem_of_mem_drop hw)
  have hfound' : Found (fun m => m = e₁.name) (ws.drop k) 0 e₁ :=
    (at?_glue (.exactly hname') hwords).mp ((at?_eq_some_iff_stands (.exactly _)).mpr ⟨rfl, h₁⟩)
  have hentry := hfound'.entry
  rw [List.map_drop, entryAt_drop] at hentry
  -- it is not the first word, so it is none of the seven of the earlier entry
  have hk : 0 < k := by
    refine Nat.pos_of_ne_zero fun hk => ?_
    rw [hk] at hplace
    exact absurd hplace (by simp; omega)
  have hbehind : 0 + 7 ≤ k := hfound.entry.le_of_lt hentry ⟨hfound.entry.isVersion, hversion⟩ hk
  have hsplit : ws.take k = ws.take 7 ++ (ws.drop 7).take (k - 7) := by
    rw [← List.take_add]
    congr 1
    omega
  rw [closing_eq_of_found hfound, ← hplace, hsplit, glue_append, List.length_append]
  exact Nat.le_add_right _ _

/-- **The later of two entries begins behind the version of the other,** maybe with the quote that
ends it, unless this version is the word `name`. -/
theorem Stands.closing_le (h : e.Stands cs i) (h' : e'.Stands cs j) (hname : Unquoted e.name)
    (hname' : Unquoted e'.name) (hversion : e.version ≠ "name".toList) (hij : i < j) :
    e.closing ≤ j := by
  obtain ⟨k, rfl⟩ := Nat.exists_eq_add_of_le (Nat.le_of_lt hij)
  have hlength : (cs.take i).length = i := List.length_take_of_le (Nat.le_of_lt h.lt_length_text)
  obtain ⟨e₁, rfl, h₁⟩ := h.exists_drop
  obtain ⟨e₁', rfl, h₁'⟩ : ∃ e₁' : Entry, e' = e₁'.behind (cs.take i) ∧ e₁'.Stands (cs.drop i) k :=
    Stands.exists_behind (by rwa [List.take_append_drop, hlength])
  have hle := h₁.closing_le_of_zero h₁' hname hname' hversion (by omega)
  rw [closing_behind, hlength]
  omega

/-! ### Reading all entries -/

/-- Entries are read on behind the quote that ends the one before. -/
theorem Stands.exists_rest (h : e.Stands cs i) :
    ∃ l, l.length = e.closing + 1 ∧ cs = l ++ e.after.drop 1 := by
  obtain ⟨q, rest, -, hafter⟩ := h.closed
  refine ⟨e.before ++ e.version ++ [q], ?_, ?_⟩
  · rw [List.length_append, List.length_append, closing, List.length_singleton]
  · rw [h.text, hafter, List.drop_one, List.tail_cons]
    simp

/-- What is read is in the text. -/
theorem stands_of_mem_all (hr : ReadsToQuote r kind) (h : e ∈ Entry.all r n cs) :
    kind e.name ∧ ∃ l i, (e.behind l).Stands cs i := by
  induction n generalizing cs with
  | zero => simp [Entry.all] at h
  | succ n ih =>
    rw [Entry.all] at h
    rcases hread : Entry.find? r cs with - | e₀
    · simp [hread] at h
    · obtain ⟨hname, i, hstands, -⟩ := (find?_eq_some_iff hr).mp hread
      simp only [hread, List.mem_cons] at h
      obtain rfl | h := h
      · exact ⟨hname, [], i, hstands⟩
      · -- the other ones are read behind the first one
        obtain ⟨l₀, -, htext⟩ := hstands.exists_rest
        obtain ⟨hname, l, j, hstands'⟩ := ih h
        rw [← stands_behind_iff (l := l₀), ← htext] at hstands'
        refine ⟨hname, l₀ ++ l, l₀.length + j, ?_⟩
        rwa [behind_append]

/-- **The first entry of some names is the first one that is read,** if the entries in front of it
have other names and end before it begins. -/
theorem find?_all (hr : ReadsToQuote r kind) {p : List Char → Bool} (hn : cs.length ≤ n)
    (h : e.Stands cs i) (hname : kind e.name) (hp : p e.name = true)
    (hbefore : ∀ (e' : Entry) (j : ℕ), kind e'.name → e'.Stands cs j → j < i →
      p e'.name = false ∧ e'.closing < i) :
    ((Entry.all r n cs).find? fun e => p e.name).map Entry.version = some e.version := by
  induction n generalizing cs e i with
  | zero =>
    have := h.lt_length_text
    omega
  | succ n ih =>
    obtain ⟨e₀, hread⟩ : ∃ e₀, Entry.find? r cs = some e₀ :=
      Option.ne_none_iff_exists'.mp fun hnone => (find?_eq_none_iff hr).mp hnone e i hname h
    obtain ⟨hname₀, k, h₀, hfirst⟩ := (find?_eq_some_iff hr).mp hread
    rw [Entry.all, hread]
    dsimp only
    obtain rfl | hlt := Nat.eq_or_lt_of_le (hfirst e i hname h)
    · obtain rfl := h₀.unique hr h hname₀ hname
      rw [List.find?_cons, hp, Option.map_some]
    · -- another entry is read first, and this one behind it
      obtain ⟨hp₀, hclosing⟩ := hbefore e₀ k hname₀ h₀ hlt
      obtain ⟨l, hlength, htext⟩ := h₀.exists_rest
      obtain ⟨m, rfl⟩ := Nat.exists_eq_add_of_le (show l.length ≤ i by omega)
      rw [htext] at h
      obtain ⟨e₁, rfl, h₁⟩ := h.exists_behind
      rw [List.find?_cons, hp₀]
      refine ih (e := e₁) ?_ h₁ hname hp fun e' j hname' h' hj => ?_
      · rw [htext, List.length_append] at hn
        omega
      · rw [← stands_behind_iff (l := l), ← htext] at h'
        obtain ⟨hp', hclosing'⟩ := hbefore (e'.behind l) (l.length + j) hname' h' (by omega)
        rw [closing_behind] at hclosing'
        exact ⟨hp', by omega⟩

/-! ### The version of the framework -/

/-- An entry is the first one in a text for the imports that stand for the framework. -/
structure IsLeftmost (e : Entry) (cs : List Char) (i : ℕ) : Prop where
  framework : String.ofList e.name ∈ frameworkImports
  stands : e.Stands cs i
  first : ∀ (e' : Entry) (j : ℕ), String.ofList e'.name ∈ frameworkImports → e'.Stands cs j → i ≤ j

end Entry

theorem isImportName_of_mem {name : List Char} (h : String.ofList name ∈ frameworkImports) :
    IsImportName name := by
  have hall : ∀ name ∈ frameworkImports, IsImportName name.toList := by decide
  have := hall _ h
  rwa [String.toList_ofList] at this

/-- An entry that begins at a place is not hidden: no entry that begins before it reaches up to the
place or has the word `name` as its version. -/
def Shown (cs : List Char) (i : ℕ) : Prop :=
  ∀ (e : Entry) (j : ℕ), IsImportName e.name → e.Stands cs j → j < i →
    e.version ≠ "name".toList ∧ e.closing ≠ i

section

variable {text text' tip : String}

/-- The first entry for the framework is the first one for its import, too. -/
theorem Entry.IsLeftmost.isFirst (h : e.IsLeftmost cs i) : e.IsFirst cs :=
  ⟨i, h.stands, fun e' j hname h' => h.first e' j (hname ▸ h.framework) h'⟩

/-- If there is an entry for the framework, there is a first one. -/
theorem Entry.Stands.exists_isLeftmost (h : e.Stands cs i)
    (hname : String.ofList e.name ∈ frameworkImports) :
    ∃ (e : Entry) (i : ℕ), e.IsLeftmost cs i := by
  obtain ⟨e₀, i₀, hname₀, h₀, hfirst⟩ :=
    @Entry.Stands.exists_first (fun name => String.ofList name ∈ frameworkImports) _ _ _ h hname
  exact ⟨e₀, i₀, hname₀, h₀, hfirst⟩

theorem version?_eq_of_isLeftmost (h : e.IsLeftmost text.toList i) :
    version? text (String.ofList e.name) = some (String.ofList e.version) :=
  version?_eq_of_isFirst String.toList_ofList.symm h.isFirst

/-- The version of the first entry for the framework is read if no other entry hides it. -/
theorem frameworkVersion?_of_isLeftmost (h : e.IsLeftmost text.toList i)
    (hshown : Shown text.toList i) : frameworkVersion? text = some (String.ofList e.version) := by
  have hname := isImportName_of_mem h.framework
  have hread := Entry.find?_all (n := text.length)
    (p := fun name => frameworkImports.contains (String.ofList name)) ReadsNames.importName.reads
    (Nat.le_of_eq String.length_toList) h.stands hname (List.contains_iff_mem.mpr h.framework) ?_
  · have hversion := congrArg (Option.map String.ofList) hread
    rwa [Option.map_map, Option.map_some] at hversion
  · intro e' j hname' h' hji
    obtain ⟨hversion, hapart⟩ := hshown e' j hname' h' hji
    have hle := h'.closing_le h.stands hname'.unquoted hname.unquoted hversion hji
    refine ⟨Bool.eq_false_iff.mpr fun hcontains => ?_, Nat.lt_of_le_of_ne hle hapart⟩
    exact Nat.not_le_of_lt hji (h.first e' j (List.contains_iff_mem.mp hcontains) h')

theorem frameworkVersion?_eq_none_of_forall
    (h : ∀ (e : Entry) (i : ℕ), String.ofList e.name ∈ frameworkImports →
      ¬ e.Stands text.toList i) :
    frameworkVersion? text = none := by
  rw [frameworkVersion?, Option.map_eq_none_iff, List.find?_eq_none]
  intro e he hcontains
  obtain ⟨-, l, i, hstands⟩ := Entry.stands_of_mem_all ReadsNames.importName.reads he
  exact h (e.behind l) i (List.contains_iff_mem.mp hcontains) hstands

/-- No import that stands for the framework has a version exactly if no entry for one is in the
text. -/
theorem forall_version?_eq_none_iff :
    (∀ name ∈ frameworkImports, version? text name = none) ↔
      ∀ (e : Entry) (i : ℕ), String.ofList e.name ∈ frameworkImports →
        ¬ e.Stands text.toList i := by
  simp only [version?, Option.map_eq_none_iff, findEntry_eq_none_iff]
  constructor
  · exact fun h e i hname => h _ hname e i String.toList_ofList.symm
  · exact fun h name hname e i he => h e i (by rwa [he, String.ofList_toList])

/-! ### Exchanging the version of the framework -/

/-- An entry in front of one that is exchanged was there before, as names hold no quotes. -/
theorem Entry.Stands.exists_of_exchange_importName (h : e.Stands cs i) (hname : IsImportName e.name)
    {t : List Char} (ht : IsVersion t) (h' : e'.Stands (e.before ++ t ++ e.after) j)
    (hname' : IsImportName e'.name) (hji : j < i) : ∃ after, { e' with after }.Stands cs j := by
  refine h.exists_of_exchange ht h' ?_ hji
  rw [countP_isQuote_of_unquoted hname'.unquoted, countP_isQuote_of_unquoted hname.unquoted]

/-- The first entry for the framework is the first one when its version is exchanged, too. -/
theorem Entry.IsLeftmost.exchange (h : e.IsLeftmost cs i) {t : List Char} (ht : IsVersion t) :
    { e with version := t }.IsLeftmost (e.before ++ t ++ e.after) i := by
  refine ⟨h.framework, h.stands.exchange ht, fun e' j hname' h' => Nat.le_of_not_lt fun hji => ?_⟩
  obtain ⟨after, hearlier⟩ := h.stands.exists_of_exchange_importName
    (isImportName_of_mem h.framework) ht h' (isImportName_of_mem hname') hji
  exact Nat.not_le_of_lt hji (h.first { e' with after } j hname' hearlier)

/-- What no entry hides is not hidden when the version behind it is exchanged. -/
theorem Shown.exchange (hshown : Shown cs i) (h : e.Stands cs i) (hname : IsImportName e.name)
    {t : List Char} (ht : IsVersion t) : Shown (e.before ++ t ++ e.after) i := by
  intro e' j hname' h' hji
  obtain ⟨after, hearlier⟩ := h.exists_of_exchange_importName hname ht h' hname' hji
  exact hshown { e' with after } j hname' hearlier hji

/-- **The new version of the import is the version of the framework.** -/
theorem frameworkVersion?_exchange (h : e.IsLeftmost text.toList i)
    (hshown : Shown text.toList i) (htip : IsVersion tip.toList)
    (hexchange : exchange text (String.ofList e.name) tip = .ok text') :
    frameworkVersion? text' = some tip := by
  obtain ⟨e₀, he₀, -, rfl⟩ := exchange_eq_ok_iff.mp hexchange
  -- the entry that is exchanged is the first one for the framework
  have hfind := findEntry_eq_some_iff.mpr ⟨String.toList_ofList.symm, h.isFirst⟩
  obtain rfl : e = e₀ := Option.some.inj (hfind.symm.trans (findEntry_eq_some_iff.mpr he₀))
  have hnew := h.exchange htip
  have hshown' := hshown.exchange h.stands (isImportName_of_mem h.framework) htip
  rw [← String.toList_ofList (l := e.before ++ tip.toList ++ e.after)] at hnew hshown'
  have hread := frameworkVersion?_of_isLeftmost hnew hshown'
  rwa [String.ofList_toList] at hread

end

/-- **Both ways to read a version agree** on a text in which the versions are commit ids and the
first entry for the framework begins with a quote that ends no other entry. -/
theorem frameworkVersion?_spec {text : String}
    (hhex : ∀ (e : Entry) (i : ℕ), IsImportName e.name → e.Stands text.toList i → IsHex e.version)
    (hapart : ∀ (e : Entry) (i : ℕ), e.IsLeftmost text.toList i → ∀ (e' : Entry) (j : ℕ),
      IsImportName e'.name → e'.Stands text.toList j → e'.closing ≠ i) :
    (frameworkVersion? text = none ↔ ∀ name ∈ frameworkImports, version? text name = none) ∧
    (frameworkVersion? text ≠ none → ∃ (e : Entry) (i : ℕ), e.IsLeftmost text.toList i) ∧
    ∀ (e : Entry) (i : ℕ), e.IsLeftmost text.toList i →
      frameworkVersion? text = version? text (String.ofList e.name) ∧
      ∀ tip text', IsHex tip.toList → exchange text (String.ofList e.name) tip = .ok text' →
        frameworkVersion? text' = some tip := by
  have hshown : ∀ (e : Entry) (i : ℕ), e.IsLeftmost text.toList i → Shown text.toList i :=
    fun e i h e' j hname' h' _ => ⟨(hhex e' j hname' h').recordable.2, hapart e i h e' j hname' h'⟩
  have hnone : frameworkVersion? text = none ↔ ∀ (e : Entry) (i : ℕ),
      String.ofList e.name ∈ frameworkImports → ¬ e.Stands text.toList i := by
    refine ⟨fun hnone e i hname h => ?_, frameworkVersion?_eq_none_of_forall⟩
    obtain ⟨e₀, i₀, h₀⟩ := h.exists_isLeftmost hname
    rw [frameworkVersion?_of_isLeftmost h₀ (hshown e₀ i₀ h₀)] at hnone
    cases hnone
  refine ⟨by rw [hnone, forall_version?_eq_none_iff], fun hsome => ?_, fun e i h => ⟨?_, ?_⟩⟩
  · rw [Ne, hnone] at hsome
    push Not at hsome
    obtain ⟨e, i, hname, h⟩ := hsome
    exact h.exists_isLeftmost hname
  · rw [frameworkVersion?_of_isLeftmost h (hshown e i h), version?_eq_of_isLeftmost h]
  · intro tip text' htip hexchange
    exact frameworkVersion?_exchange h (hshown e i h) htip.recordable.1 hexchange

/-- The entry for `regex` begins with a quote of its own, behind one for another import. -/
theorem frameworkVersion?_spec_apart :
    let text := "'name': 'tools', 'version': 'a1', 'name': 'regex', 'version': 'b2'"
    (∀ (e : Entry) (i : ℕ), IsImportName e.name → e.Stands text.toList i → IsHex e.version) ∧
      (∀ (e : Entry) (i : ℕ), e.IsLeftmost text.toList i → ∀ (e' : Entry) (j : ℕ),
        IsImportName e'.name → e'.Stands text.toList j → e'.closing ≠ i) ∧
      frameworkVersion? text = some "b2" ∧
      ∃ (e : Entry) (i : ℕ), e.IsLeftmost text.toList i ∧
        frameworkVersion? text = version? text (String.ofList e.name) := by
  intro text
  have hhex : ∀ (e : Entry) (i : ℕ), IsImportName e.name → e.Stands text.toList i →
      IsHex e.version :=
    Entry.forall_stands ReadsNames.importName.reads (by decide +kernel)
  have hplaces : ∀ (e : Entry) (i : ℕ), IsImportName e.name → e.Stands text.toList i →
      i = 0 ∧ e.closing = 31 ∨ i = 34 ∧ e.closing = 65 :=
    Entry.forall_stands ReadsNames.importName.reads (by decide +kernel)
  have hapart : ∀ (e : Entry) (i : ℕ), e.IsLeftmost text.toList i → ∀ (e' : Entry) (j : ℕ),
      IsImportName e'.name → e'.Stands text.toList j → e'.closing ≠ i := by
    intro e i h e' j hname' h'
    have := hplaces e i (isImportName_of_mem h.framework) h.stands
    have := hplaces e' j hname' h'
    omega
  have hversion : frameworkVersion? text = some "b2" := by decide +kernel
  obtain ⟨-, hleftmost, hagree⟩ := frameworkVersion?_spec hhex hapart
  obtain ⟨e, i, h⟩ := hleftmost (by simp [hversion])
  exact ⟨hhex, hapart, hversion, e, i, h, (hagree e i h).1⟩

/-- **An entry for the framework is lost** if it begins with the quote that ends another entry. -/
theorem frameworkVersion?_eq_none_of_shared_quote :
    let text := "'name': 'x', 'version': 'ab'name': 'sulong', 'version': 'cd'"
    (∀ (e : Entry) (i : ℕ), IsImportName e.name → e.Stands text.toList i → IsHex e.version) ∧
      frameworkVersion? text = none ∧ "sulong" ∈ frameworkImports ∧
      version? text "sulong" = some "cd" := by
  intro text
  refine ⟨Entry.forall_stands ReadsNames.importName.reads ?_, ?_, ?_, ?_⟩
  all_goals decide +kernel

end SuiteGate.Imports
