import Mathlib.Data.List.Induction
import SuiteGate.Path
import SuiteGate.Proofs.Text.Fields
/-!
# The steps along a path

What the system sees of a path are its steps.  The steps along a joined path are those along its
parts (`steps_join`), and a path made of names goes down these names (`steps_ofJoin`).  A path that
is continued with names is continued with one after the other (`join_ofJoin_concat`).
-/

namespace SuiteGate

namespace Name

theorem toList_ne_nil (x : Name) : x.text.toList ≠ [] := by
  intro h
  have hv := x.valid
  rw [String.toList_eq_nil_iff] at h
  simp [h] at hv

theorem slash_not_mem (x : Name) : '/' ∉ x.text.toList := by
  intro h
  have hv := x.valid
  simp only [Bool.and_eq_true, bne_iff_ne, Bool.not_eq_true', ne_eq] at hv
  have h2 := hv.2
  rw [List.contains_eq_mem, decide_eq_false_iff_not] at h2
  exact h2 h

theorem ofString?_text (x : Name) : Name.ofString? x.text = some x := by
  rw [ofString?, dif_pos x.valid]

theorem text_inj {x y : Name} : x.text = y.text ↔ x = y := by
  cases x
  cases y
  simp

/-- **What is neither idle nor a step up,** and holds no separator, is a name. -/
theorem exists_toList_eq {s : List Char} (hne : s ≠ []) (hdot : s ≠ ['.']) (hup : s ≠ ['.', '.'])
    (hslash : '/' ∉ s) : ∃ x : Name, x.text.toList = s := by
  have hofList : ∀ u : String, s ≠ u.toList → String.ofList s ≠ u := by
    rintro u hu rfl
    exact hu String.toList_ofList.symm
  refine ⟨⟨String.ofList s, ?_⟩, String.toList_ofList⟩
  simp only [Bool.and_eq_true, bne_iff_ne, Bool.not_eq_true', List.contains_eq_mem,
    decide_eq_false_iff_not, String.toList_ofList]
  exact ⟨⟨⟨hofList "" hne, hofList "." hdot⟩, hofList ".." hup⟩, hslash⟩

end Name

namespace Path

/-- The steps that a text asks for. -/
def stepsIn (cs : List Char) : List Step :=
  ((Text.splitChars '/' cs).filter (· ≠ [])).map Step.ofSegment

theorem stepsIn_append (a b : List Char) : stepsIn (a ++ '/' :: b) = stepsIn a ++ stepsIn b := by
  rw [stepsIn, Text.splitChars_append, List.filter_append, List.map_append]
  rfl

theorem stepsIn_nil : stepsIn [] = [] := rfl

/-- A separator at the start asks for no step. -/
theorem steps_eq (p : Path) : p.steps = stepsIn p.text.toList := by
  rw [steps, segments]
  split
  · -- the empty segment before the separator is dropped
    next h =>
    have hhead : p.text.toList.head? = some '/' := by simpa [isAbsolute] using h
    obtain ⟨cs, hcs⟩ : ∃ cs, p.text.toList = '/' :: cs := by
      cases hl : p.text.toList with
      | nil => simp [hl] at hhead
      | cons c cs =>
        rw [hl, List.head?_cons, Option.some.injEq] at hhead
        exact ⟨cs, by rw [hhead]⟩
    rw [hcs, List.tail_cons]
    exact (stepsIn_append [] cs).symm
  · rfl

theorem Step.ofSegment_name (x : Name) : Step.ofSegment x.text.toList = .down x := by
  rw [Step.ofSegment, String.ofList_toList, x.ofString?_text]

theorem stepsIn_name (x : Name) : stepsIn x.text.toList = [.down x] := by
  rw [stepsIn, Text.splitChars_of_not_mem x.slash_not_mem]
  have h : decide (x.text.toList ≠ []) = true := decide_eq_true x.toList_ne_nil
  rw [List.filter_cons_of_pos (by simpa using h), List.filter_nil, List.map_singleton,
    Step.ofSegment_name]

/-- **The steps along a joined path** are those along its parts. -/
theorem steps_join {p q : Path} (hq : q.isAbsolute = false) :
    (p.join q).steps = p.steps ++ q.steps := by
  rw [join, hq, Bool.false_or, steps_eq p, steps_eq q]
  by_cases hempty : p.text.isEmpty = true
  · rw [if_pos hempty, steps_eq, String.isEmpty_iff.mp hempty]
    rfl
  · rw [if_neg hempty]
    by_cases hlast : p.text.toList.getLast? = some '/'
    · -- the separator of the join is the one at the end of the first part
      rw [if_pos hlast, steps_eq]
      obtain ⟨init, hinit⟩ : ∃ init, p.text.toList = init ++ ['/'] :=
        List.getLast?_eq_some_iff.mp hlast
      simp only [String.toList_append, hinit, List.append_assoc, List.singleton_append]
      rw [stepsIn_append, stepsIn_append, stepsIn_nil, List.append_nil]
    · rw [if_neg hlast, steps_eq]
      simp only [String.toList_append, List.append_assoc]
      exact stepsIn_append p.text.toList q.text.toList

theorem isAbsolute_join {p q : Path} (hq : q.isAbsolute = false) :
    (p.join q).isAbsolute = p.isAbsolute := by
  rw [join, hq, Bool.false_or]
  by_cases hempty : p.text.isEmpty = true
  · rw [if_pos hempty, hq, isAbsolute, String.isEmpty_iff.mp hempty]
    rfl
  · rw [if_neg hempty]
    have hne : p.text.toList ≠ [] := by
      rw [ne_eq, String.toList_eq_nil_iff, ← String.isEmpty_iff]
      exact hempty
    obtain ⟨c, cs, hcs⟩ := List.exists_cons_of_ne_nil hne
    split <;> simp [isAbsolute, hcs]

/-! ### Paths made of names -/

/-- The path that goes down some names. -/
def ofJoin (names : List Name) : Path :=
  ⟨Text.join "/" (names.map Name.text)⟩

theorem toList_ofJoin_cons_cons (x y : Name) (names : List Name) :
    (ofJoin (x :: y :: names)).text.toList =
      x.text.toList ++ '/' :: (ofJoin (y :: names)).text.toList := by
  simp only [ofJoin, Text.join, List.map_cons, String.intercalate_cons_cons, String.toList_append]
  simp

theorem ofJoin_singleton (x : Name) : ofJoin [x] = ⟨x.text⟩ := by
  simp [ofJoin, Text.join, String.intercalate_singleton]

/-- **A path made of names** goes down these names. -/
theorem steps_ofJoin (names : List Name) : (ofJoin names).steps = names.map .down := by
  rw [steps_eq]
  induction names with
  | nil => rfl
  | cons x names ih =>
    cases names with
    | nil =>
      rw [ofJoin_singleton]
      exact stepsIn_name x
    | cons y names =>
      rw [toList_ofJoin_cons_cons, stepsIn_append, stepsIn_name, ih]
      rfl

theorem isAbsolute_ofJoin (names : List Name) : (ofJoin names).isAbsolute = false := by
  have key : (ofJoin names).text.toList.head? ≠ some '/' := by
    cases names with
    | nil => simp [ofJoin, Text.join]
    | cons x names =>
      obtain ⟨c, cs, hcs⟩ := List.exists_cons_of_ne_nil x.toList_ne_nil
      have hc : c ≠ '/' := by
        rintro rfl
        exact x.slash_not_mem (hcs ▸ List.mem_cons_self ..)
      cases names with
      | nil => rw [ofJoin_singleton]; simp [hcs, hc]
      | cons y names => rw [toList_ofJoin_cons_cons]; simp [hcs, hc]
  simpa [isAbsolute] using key

theorem child_eq (p : Path) (x : Name) : p.child x.text = p.join (ofJoin [x]) := by
  rw [child, ofJoin_singleton]

theorem steps_child (p : Path) (x : Name) : (p.child x.text).steps = p.steps ++ [.down x] := by
  rw [child_eq, steps_join (isAbsolute_ofJoin _), steps_ofJoin]
  rfl

theorem isAbsolute_name (x : Name) : (⟨x.text⟩ : Path).isAbsolute = false :=
  ofJoin_singleton x ▸ isAbsolute_ofJoin [x]

theorem toList_child (p : Path) (x : Name) :
    ∃ sep, (sep = [] ∨ sep = ['/']) ∧
      (p.child x.text).text.toList = p.text.toList ++ sep ++ x.text.toList := by
  have hrel := isAbsolute_name x
  rw [child, join, hrel, Bool.false_or]
  split
  · next h => exact ⟨[], .inl rfl, by simp [String.isEmpty_iff.mp h]⟩
  · split
    · exact ⟨[], .inl rfl, by simp⟩
    · exact ⟨['/'], .inr rfl, by simp⟩

/-- A separator behind a path is no step. -/
theorem steps_join_nil (p : Path) : (p.join (ofJoin [])).steps = p.steps := by
  rw [steps_join (isAbsolute_ofJoin _), steps_ofJoin, List.map_nil, List.append_nil]

/-- The text of a path joined with nothing starts with that of the path. -/
theorem exists_toList_join_nil (p : Path) :
    ∃ sep, (p.join (ofJoin [])).text.toList = p.text.toList ++ sep := by
  rw [join]
  split
  · next h =>
    have hempty : p.text = "" := by simpa [isAbsolute_ofJoin] using h
    exact ⟨(ofJoin []).text.toList, by rw [hempty, String.toList_empty, List.nil_append]⟩
  · split
    · exact ⟨(ofJoin []).text.toList, by rw [String.toList_append]⟩
    · exact ⟨'/' :: (ofJoin []).text.toList, by simp⟩

section

variable {p q : Path}

/-- The separator that a path needs before it is continued. -/
def gap (cs : List Char) : List Char :=
  if cs = [] ∨ cs.getLast? = some '/' then [] else ['/']

theorem toList_join {p q : Path} (hq : q.isAbsolute = false) :
    (p.join q).text.toList = p.text.toList ++ gap p.text.toList ++ q.text.toList := by
  rw [join, hq, Bool.false_or, gap]
  by_cases hempty : p.text = ""
  · simp [hempty]
  · have hne : p.text.toList ≠ [] := by simpa using hempty
    rw [if_neg (by simpa using hempty)]
    by_cases hlast : p.text.toList.getLast? = some '/'
    · simp [hlast]
    · simp [hlast, hempty]

/-- A path that was continued needs the separator of its second part, if there is one. -/
theorem gap_append {cs : List Char} (more : List Char) :
    gap (cs ++ gap cs ++ more) = gap more := by
  by_cases hmore : more = []
  · subst hmore
    by_cases hcs : cs = [] ∨ cs.getLast? = some '/'
    · rw [gap, gap, if_pos hcs, List.append_nil, List.append_nil, if_pos hcs]
      rfl
    · have hgap : gap cs = ['/'] := if_neg hcs
      rw [hgap, List.append_nil, gap, if_pos (.inr List.getLast?_concat)]
      rfl
  · simp only [gap, List.getLast?_append_of_ne_nil _ hmore, hmore, List.append_eq_nil_iff, and_false]

theorem ext_toList (h : p.text.toList = q.text.toList) : p = q := by
  cases p
  cases q
  simpa [String.toList_inj] using h

/-- Continuing a path twice is continuing it with both parts. -/
theorem join_join {p q r : Path} (hq : q.isAbsolute = false) (hr : r.isAbsolute = false) :
    p.join (q.join r) = (p.join q).join r := by
  have habs : (q.join r).isAbsolute = false := (isAbsolute_join hr).trans hq
  refine ext_toList ?_
  rw [toList_join habs, toList_join hr, toList_join hr, toList_join hq, gap_append]
  simp only [List.append_assoc]

/-- A path made of more than one name continues the first with the others. -/
theorem ofJoin_cons {names : List Name} (x : Name) (hne : names ≠ []) :
    ofJoin (x :: names) = (ofJoin [x]).join (ofJoin names) := by
  have hgap : gap x.text.toList = ['/'] :=
    if_neg fun h => h.elim x.toList_ne_nil fun h => x.slash_not_mem (List.mem_of_getLast? h)
  obtain ⟨y, rest, rfl⟩ := List.exists_cons_of_ne_nil hne
  refine ext_toList ?_
  rw [toList_join (isAbsolute_ofJoin _), toList_ofJoin_cons_cons, ofJoin_singleton, hgap,
    List.append_assoc, List.singleton_append]

theorem ofJoin_concat (names : List Name) (x : Name) :
    ofJoin (names ++ [x]) = (ofJoin names).join (ofJoin [x]) := by
  induction names with
  | nil =>
    refine ext_toList ?_
    rw [toList_join (isAbsolute_ofJoin _)]
    rfl
  | cons y names ih =>
    rw [List.cons_append, ofJoin_cons y (by simp)]
    cases names with
    | nil => rfl
    | cons z names =>
      rw [ih, ofJoin_cons y (List.cons_ne_nil z names),
        join_join (isAbsolute_ofJoin _) (isAbsolute_ofJoin _)]

/-- **A path continued with names** is continued with one after the other. -/
theorem join_ofJoin_concat (p : Path) (names : List Name) (x : Name) :
    p.join (ofJoin (names ++ [x])) = (p.join (ofJoin names)).child x.text := by
  rw [ofJoin_concat, join_join (isAbsolute_ofJoin _) (isAbsolute_ofJoin _), child_eq]

end

/-- A path joined with nothing is empty or ends in a separator. -/
theorem hasTrailingSlash_join_nil {p : Path} (h : (p.join (ofJoin [])).text.isEmpty = false) :
    (p.join (ofJoin [])).hasTrailingSlash = true := by
  have hnil : ofJoin [] = ⟨""⟩ := by simp [ofJoin, Text.join]
  rw [hnil] at h ⊢
  rw [join, show (⟨""⟩ : Path).isAbsolute = false from rfl, Bool.false_or] at h ⊢
  split at h
  · simp at h
  · next hempty =>
    rw [if_neg hempty, hasTrailingSlash]
    split
    · next hlast => simpa using hlast
    · simp

/-- A path that ends in a name does not end in a separator. -/
theorem hasTrailingSlash_child (p : Path) (x : Name) :
    (p.child x.text).hasTrailingSlash = false := by
  obtain ⟨sep, -, hsep⟩ := toList_child p x
  rw [hasTrailingSlash, hsep, decide_eq_false_iff_not,
    List.getLast?_append_of_ne_nil _ x.toList_ne_nil]
  exact fun h => x.slash_not_mem (List.mem_of_getLast? h)

theorem isEmpty_text_child (p : Path) (x : Name) : (p.child x.text).text.isEmpty = false := by
  obtain ⟨sep, -, hsep⟩ := toList_child p x
  rw [Bool.eq_false_iff, ne_eq, String.isEmpty_iff, ← String.toList_eq_nil_iff, hsep]
  simp [x.toList_ne_nil]

theorem mem_toList_child {p : Path} {x : Name} {c : Char} (hc : c ≠ '/') :
    c ∈ (p.child x.text).text.toList ↔ c ∈ p.text.toList ∨ c ∈ x.text.toList := by
  obtain ⟨sep, hor, hsep⟩ := toList_child p x
  have hmem : c ∉ sep := by
    rcases hor with rfl | rfl <;> simp [hc]
  rw [hsep, List.mem_append, List.mem_append]
  simp [hmem]

/-- A path continued with a name holds a NUL if one of them does. -/
theorem contains_nul_child (p : Path) (x : Name) :
    (p.child x.text).text.toList.contains '\x00' =
      (p.text.toList.contains '\x00' || x.text.toList.contains '\x00') := by
  rw [Bool.eq_iff_iff, Bool.or_eq_true, List.contains_iff_mem, List.contains_iff_mem,
    List.contains_iff_mem, mem_toList_child (by decide)]

theorem contains_nul_join_nil (p : Path) :
    (p.join (ofJoin [])).text.toList.contains '\x00' = p.text.toList.contains '\x00' := by
  have hgap : '\x00' ∉ gap p.text.toList := by
    rw [gap]
    split <;> simp
  have hnil : (ofJoin []).text.toList = [] := rfl
  rw [toList_join (isAbsolute_ofJoin _), hnil, List.append_nil, Bool.eq_iff_iff,
    List.contains_iff_mem, List.contains_iff_mem, List.mem_append, or_iff_left hgap]

/-- A path continued with names holds a NUL if one of them does. -/
theorem contains_nul_join_ofJoin (p : Path) (names : List Name) :
    (p.join (ofJoin names)).text.toList.contains '\x00' = false ↔
      p.text.toList.contains '\x00' = false ∧
        ∀ x ∈ names, x.text.toList.contains '\x00' = false := by
  induction names using List.reverseRecOn with
  | nil =>
    rw [contains_nul_join_nil]
    simp
  | append_singleton names x ih =>
    rw [join_ofJoin_concat, contains_nul_child, Bool.or_eq_false_iff, ih]
    simp [or_imp, forall_and, and_assoc]

theorem exists_name_of_normal {p : Path} {t : String} (h : Component.normal t ∈ p.components) :
    ∃ x : Name, x.text = t := by
  have hmem : Component.normal t ∈ p.segments.filterMap Component.ofSegment := by
    rw [components] at h
    split at h
    · simpa using h
    · split at h
      · simpa using h
      · exact h
  obtain ⟨seg, hseg, hof⟩ := List.mem_filterMap.mp hmem
  rw [Component.ofSegment] at hof
  split at hof
  · simp at hof
  · next hidle =>
    split at hof
    · simp at hof
    · next hup =>
      obtain rfl : String.ofList seg = t := by simpa using hof
      simp only [Bool.or_eq_true, decide_eq_true_eq, not_or] at hidle
      obtain ⟨x, hx⟩ := Name.exists_toList_eq hidle.1 hidle.2 hup
        (Text.sep_not_mem_of_mem_splitChars hseg)
      exact ⟨x, by rw [← hx, String.ofList_toList]⟩

/-- The last component of a path, if there is one, is a name. -/
theorem exists_name_of_fileName? {p : Path} {t : String} (h : p.fileName? = some t) :
    ∃ x : Name, x.text = t := by
  rw [fileName?] at h
  split at h
  · next name hlast =>
    obtain rfl : name = t := by simpa using h
    exact exists_name_of_normal (List.mem_of_getLast? hlast)
  · simp at h

/-! ### Names along a path -/

/-- The name that a step goes down. -/
def Step.name? : Step → Option Name
  | .down x => some x
  | _ => none

/-- The names that a path goes down. -/
def names (p : Path) : List Name :=
  p.steps.filterMap Step.name?

/-- A path that leads nowhere but further down. -/
structure Inner (p : Path) : Prop where
  relative : p.isAbsolute = false
  noUp : .up ∉ p.steps

instance (p : Path) : Decidable p.Inner :=
  decidable_of_iff (p.isAbsolute = false ∧ .up ∉ p.steps) ⟨fun h => ⟨h.1, h.2⟩, fun h => ⟨h.1, h.2⟩⟩

theorem filterMap_name?_map_down (names : List Name) :
    (names.map Step.down).filterMap Step.name? = names := by
  rw [List.filterMap_map]
  exact List.filterMap_some

theorem names_ofJoin (names : List Name) : (ofJoin names).names = names := by
  rw [Path.names, steps_ofJoin, filterMap_name?_map_down]

theorem inner_ofJoin (names : List Name) : (ofJoin names).Inner := by
  refine ⟨isAbsolute_ofJoin names, ?_⟩
  rw [steps_ofJoin]
  simp

end Path

end SuiteGate
