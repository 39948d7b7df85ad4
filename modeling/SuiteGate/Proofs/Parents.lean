import SuiteGate.Proofs.Paths
/-!
# The path above a path

The path above a path (`Path.parent?`) is cut off the text before its last component
(`exists_segments_of_parent?`).  So it is shorter (`length_parent?`), the steps along the path go
on from the steps along the path above it (`steps_parent?`), and of an absolute path it has all
components but the last (`components_parent?`); only the root has none above it
(`parent?_eq_none_iff`).

A dot that ends a path does not count as its last component, and no path above another ends in one
behind a name (`not_endsInDot_parent?`).
-/

namespace SuiteGate.Path

variable {p q above : Path}

/-! ### Text and segments -/

/-- What a path starts with besides its segments. -/
def lead (p : Path) : List Char :=
  if p.isAbsolute then ['/'] else []

/-- **The text of a path** is its segments with separators between them. -/
theorem toList_text_eq (p : Path) :
    p.text.toList = p.lead ++ ['/'].intercalate p.segments := by
  rw [lead, segments, Text.intercalate_splitChars]
  by_cases habs : p.isAbsolute = true
  · have hhead : p.text.toList.head? = some '/' := by simpa [isAbsolute] using habs
    rw [if_pos habs, if_pos habs, List.singleton_append]
    cases hcs : p.text.toList with
    | nil => simp [hcs] at hhead
    | cons c cs =>
      rw [hcs, List.head?_cons, Option.some.injEq] at hhead
      rw [hhead, List.tail_cons]
  · rw [if_neg habs, if_neg habs, List.nil_append]

theorem segments_ne_nil (p : Path) : p.segments ≠ [] :=
  Text.splitChars_ne_nil '/' _

theorem slash_not_mem_segment {s : List Char} (h : s ∈ p.segments) : '/' ∉ s :=
  Text.sep_not_mem_of_mem_splitChars h

/-- A segment that stands for no component. -/
def IsIdle (s : List Char) : Prop :=
  s = [] ∨ s = ['.']

/-- The segments at the end of a path, up to the first that is a component. -/
theorem exists_eq_append_dropIdle (absolute : Bool) (segs : List (List Char)) :
    ∃ idle, segs = idle ++ dropIdle absolute segs ∧ (∀ s ∈ idle, IsIdle s) ∧
      ∀ s ∈ (dropIdle absolute segs).head?, s ≠ [] ∧ (absolute = true → s ≠ ['.']) := by
  induction segs with
  | nil => exact ⟨[], rfl, by simp, by simp [dropIdle]⟩
  | cons s rest ih =>
    rw [dropIdle]
    split
    · next hidle =>
      obtain ⟨idle, hrest, hall, hhead⟩ := ih
      refine ⟨s :: idle, by rw [List.cons_append, ← hrest], ?_, hhead⟩
      have hs : IsIdle s := by
        simp only [Bool.or_eq_true, decide_eq_true_eq, Bool.and_eq_true] at hidle
        exact hidle.imp id And.left
      exact List.forall_mem_cons.mpr ⟨hs, hall⟩
    · next hidle =>
      refine ⟨[], rfl, by simp, ?_⟩
      simp only [Bool.or_eq_true, decide_eq_true_eq, Bool.and_eq_true, not_or, not_and] at hidle
      intro t ht
      obtain rfl : s = t := by simpa using ht
      exact ⟨hidle.1, fun habs hdot => (hidle.2 hdot).1 habs⟩

/-- The path above a path is made of the segments before its last component. -/
theorem exists_dropIdle_of_parent? (h : p.parent? = some above) :
    ∃ s rest, dropIdle p.isAbsolute p.segments.reverse = s :: rest ∧
      above.text.toList =
        p.lead ++ ['/'].intercalate (dropIdle p.isAbsolute rest).reverse := by
  rw [parent?] at h
  cases hdrop : dropIdle p.isAbsolute p.segments.reverse with
  | nil => simp [hdrop] at h
  | cons s rest =>
    rw [hdrop] at h
    refine ⟨s, rest, rfl, ?_⟩
    rw [← Option.some.inj h, lead]
    split <;> simp

/-- **The path above a path** is cut off its text before the last component. -/
theorem exists_segments_of_parent? (h : p.parent? = some above) :
    ∃ kept idle s idle', p.segments = kept ++ (idle ++ s :: idle') ∧
      (∀ t ∈ idle, IsIdle t) ∧ (∀ t ∈ idle', IsIdle t) ∧
      (s ≠ [] ∧ (p.isAbsolute = true → s ≠ ['.'])) ∧
      above.text.toList = p.lead ++ ['/'].intercalate kept := by
  obtain ⟨s, rest, hdrop, habove⟩ := exists_dropIdle_of_parent? h
  obtain ⟨idle', hsegs, hidle', hhead⟩ := exists_eq_append_dropIdle p.isAbsolute p.segments.reverse
  rw [hdrop] at hsegs hhead
  obtain ⟨idle, hrest, hidle, -⟩ := exists_eq_append_dropIdle p.isAbsolute rest
  refine ⟨_, idle.reverse, s, idle'.reverse, ?_, ?_, ?_, hhead s rfl, habove⟩
  · have hall : p.segments.reverse = idle' ++ s :: (idle ++ dropIdle p.isAbsolute rest) := by
      rw [hsegs, ← hrest]
    rw [← List.reverse_reverse p.segments, hall]
    simp
  · exact fun t ht => hidle t (List.mem_reverse.mp ht)
  · exact fun t ht => hidle' t (List.mem_reverse.mp ht)

/-! ### What is left of the path -/

/-- The text of the path above is cut off the text of the path. -/
theorem toList_text_prefix_of_parent? (h : p.parent? = some above) :
    above.text.toList <+: p.text.toList := by
  obtain ⟨kept, idle, s, idle', hsegs, -, -, -, habove⟩ := exists_segments_of_parent? h
  rw [toList_text_eq p, habove, hsegs]
  by_cases hkept : kept = []
  · rw [hkept, List.intercalate_nil, List.append_nil]
    exact List.prefix_append _ _
  · rw [Text.intercalate_append hkept (by simp), ← List.append_assoc]
    exact List.prefix_append _ _

/-- **The path above a path is shorter.** -/
theorem length_parent? (h : p.parent? = some above) : above.text.length < p.text.length := by
  obtain ⟨kept, idle, s, idle', hsegs, -, -, ⟨hs, -⟩, habove⟩ := exists_segments_of_parent? h
  have hlen : 0 < s.length := List.length_pos_iff.mpr hs
  rw [← String.length_toList, ← String.length_toList, toList_text_eq p, habove, hsegs]
  by_cases hkept : kept = []
  · have hmem : s ∈ idle ++ s :: idle' := by simp
    have hle : s.length ≤ (['/'].intercalate (idle ++ s :: idle')).length :=
      Text.length_le_of_mem_intercalate hmem
    rw [hkept, List.intercalate_nil, List.nil_append, List.length_append, List.length_append]
    simp only [List.length_nil]
    omega
  · rw [Text.intercalate_append hkept (by simp)]
    simp

theorem isAbsolute_parent? (h : p.parent? = some above) : above.isAbsolute = p.isAbsolute := by
  obtain ⟨rest, hrest⟩ := toList_text_prefix_of_parent? h
  obtain ⟨kept, -, -, -, -, -, -, -, habove⟩ := exists_segments_of_parent? h
  by_cases habs : p.isAbsolute = true
  · rw [habs, isAbsolute, habove, lead, if_pos habs]
    simp
  · rw [Bool.not_eq_true] at habs
    rw [habs, isAbsolute, decide_eq_false_iff_not]
    intro hhead
    rw [isAbsolute, decide_eq_false_iff_not, ← hrest, List.head?_append, hhead] at habs
    exact habs rfl

/-- A text that is made of segments has these segments, or none. -/
theorem segments_eq_or {kept : List (List Char)} (habs : above.isAbsolute = p.isAbsolute)
    (h : above.text.toList = p.lead ++ ['/'].intercalate kept) (hslash : ∀ t ∈ kept, '/' ∉ t) :
    above.segments = kept ∨ kept = [] ∧ above.segments = [[]] := by
  have hcut : above.segments = Text.splitChars '/' (['/'].intercalate kept) := by
    rw [segments, habs, h, lead]
    split <;> simp
  by_cases hkept : kept = []
  · exact .inr ⟨hkept, by rw [hcut, hkept]; rfl⟩
  · rw [Text.splitChars_intercalate hslash hkept] at hcut
    exact .inl hcut

/-- The segments of the path above are those of the path that were kept, or there are none. -/
theorem segments_parent? (h : p.parent? = some above) :
    ∃ kept more, p.segments = kept ++ more ∧
      (above.segments = kept ∨ kept = [] ∧ above.segments = [[]]) ∧
      ∃ idle s idle', more = idle ++ s :: idle' ∧ (∀ t ∈ idle, IsIdle t) ∧
        (∀ t ∈ idle', IsIdle t) ∧ s ≠ [] ∧ (p.isAbsolute = true → s ≠ ['.']) := by
  obtain ⟨kept, idle, s, idle', hsegs, hidle, hidle', ⟨hs, hdot⟩, habove⟩ :=
    exists_segments_of_parent? h
  refine ⟨kept, idle ++ s :: idle', hsegs, ?_, idle, s, idle', rfl, hidle, hidle', hs, hdot⟩
  refine segments_eq_or (isAbsolute_parent? h) habove fun t ht => ?_
  exact slash_not_mem_segment (p := p) (hsegs ▸ List.mem_append_left _ ht)

/-- **The steps along a path** go on from those along the path above it. -/
theorem steps_parent? (h : p.parent? = some above) :
    ∃ more, p.steps = above.steps ++ more ∧ more ≠ [] := by
  obtain ⟨kept, more, hsegs, habove, idle, s, idle', rfl, -, -, hs, -⟩ := segments_parent? h
  refine ⟨((idle ++ s :: idle').filter (· ≠ [])).map Step.ofSegment, ?_, ?_⟩
  · rw [steps, steps, hsegs, List.filter_append, List.map_append]
    rcases habove with habove | ⟨hkept, habove⟩
    · rw [habove]
    · rw [habove, hkept]
      rfl
  · simp [hs]

/-! ### Components -/

theorem ofSegment_eq_none_iff {s : List Char} : Component.ofSegment s = none ↔ IsIdle s := by
  rw [Component.ofSegment, IsIdle]
  split
  · next h => simpa using h
  · next h =>
    simp only [Bool.or_eq_true, decide_eq_true_eq] at h
    split <;> simp [h]

theorem components_of_isAbsolute (h : p.isAbsolute = true) :
    p.components = .root :: p.segments.filterMap Component.ofSegment := by
  rw [components, if_pos h]

theorem filterMap_ofSegment_eq_nil {segs : List (List Char)} (h : ∀ s ∈ segs, IsIdle s) :
    segs.filterMap Component.ofSegment = [] :=
  List.filterMap_eq_nil_iff.mpr fun s hs => ofSegment_eq_none_iff.mpr (h s hs)

/-- **Above an absolute path** there is the path with all components but the last. -/
theorem components_parent? (habs : p.isAbsolute = true) (h : p.parent? = some above) :
    ∃ c, p.components = above.components ++ [c] := by
  obtain ⟨kept, more, hsegs, habove, idle, s, idle', rfl, hidle, hidle', hs, hdot⟩ :=
    segments_parent? h
  obtain ⟨c, hc⟩ : ∃ c, Component.ofSegment s = some c :=
    Option.ne_none_iff_exists'.mp fun hnone =>
      (ofSegment_eq_none_iff.mp hnone).elim hs (hdot habs)
  have hkept : above.segments.filterMap Component.ofSegment =
      kept.filterMap Component.ofSegment := by
    rcases habove with habove | ⟨hnil, habove⟩
    · rw [habove]
    · rw [habove, hnil]
      rfl
  refine ⟨c, ?_⟩
  rw [components_of_isAbsolute habs, components_of_isAbsolute ((isAbsolute_parent? h).trans habs),
    hkept, hsegs, List.filterMap_append, List.filterMap_append, List.filterMap_cons_some hc,
    filterMap_ofSegment_eq_nil hidle, filterMap_ofSegment_eq_nil hidle', List.nil_append,
    List.cons_append]

/-- **Only the root has nothing above it.** -/
theorem parent?_eq_none_iff (habs : p.isAbsolute = true) :
    p.parent? = none ↔ p.components = [.root] := by
  constructor
  · intro h
    obtain ⟨idle, hsegs, hidle, hhead⟩ := exists_eq_append_dropIdle p.isAbsolute p.segments.reverse
    rw [parent?] at h
    cases hdrop : dropIdle p.isAbsolute p.segments.reverse with
    | cons s rest => simp [hdrop] at h
    | nil =>
      rw [hdrop, List.append_nil] at hsegs
      rw [components_of_isAbsolute habs, filterMap_ofSegment_eq_nil]
      exact fun s hs => hidle s (hsegs ▸ List.mem_reverse.mpr hs)
  · intro h
    cases hp : p.parent? with
    | none => rfl
    | some above =>
      obtain ⟨c, hc⟩ := components_parent? habs hp
      rw [components_of_isAbsolute ((isAbsolute_parent? hp).trans habs), h] at hc
      simp at hc

/-- The components that a text stands for, a separator at its start aside. -/
def componentsIn (cs : List Char) : List Component :=
  (Text.splitChars '/' cs).filterMap Component.ofSegment

theorem componentsIn_append (a b : List Char) :
    componentsIn (a ++ '/' :: b) = componentsIn a ++ componentsIn b := by
  rw [componentsIn, Text.splitChars_append, List.filterMap_append]
  rfl

theorem components_eq_root_cons (h : p.isAbsolute = true) :
    p.components = .root :: componentsIn p.text.toList := by
  have hlead : p.text.toList = [] ++ '/' :: ['/'].intercalate p.segments := by
    rw [toList_text_eq p, lead, if_pos h, List.nil_append, List.singleton_append]
  have hbody : componentsIn (['/'].intercalate p.segments) =
      p.segments.filterMap Component.ofSegment := by
    rw [componentsIn, Text.splitChars_intercalate (fun s hs => slash_not_mem_segment hs)
      (segments_ne_nil p)]
  rw [hlead, componentsIn_append, components_of_isAbsolute h, hbody]
  rfl

theorem componentsIn_name (x : Name) : componentsIn x.text.toList = [.normal x.text] := by
  have hv := x.valid
  simp only [Bool.and_eq_true, bne_iff_ne, ne_eq] at hv
  have hne : ∀ u : String, x.text ≠ u → x.text.toList ≠ u.toList := fun u hu h =>
    hu (String.toList_inj.mp h)
  rw [componentsIn, Text.splitChars_of_not_mem x.slash_not_mem]
  have hidle : ¬ (x.text.toList = [] || x.text.toList = ['.']) = true := by
    simp only [Bool.or_eq_true, decide_eq_true_eq, not_or]
    exact ⟨hne "" hv.1.1.1, hne "." hv.1.1.2⟩
  have hup : ¬ x.text.toList = ['.', '.'] := hne ".." hv.1.2
  have hof : Component.ofSegment x.text.toList = some (.normal x.text) := by
    rw [Component.ofSegment, if_neg hidle, if_neg hup, String.ofList_toList]
  rw [List.filterMap_cons_some hof, List.filterMap_nil]

/-- The components of a path made of names are these names. -/
theorem componentsIn_ofJoin (names : List Name) :
    componentsIn (ofJoin names).text.toList = names.map fun x => .normal x.text := by
  induction names with
  | nil => rfl
  | cons x names ih =>
    cases names with
    | nil => rw [ofJoin_singleton, componentsIn_name, List.map_singleton]
    | cons y names =>
      rw [toList_ofJoin_cons_cons, componentsIn_append, componentsIn_name, ih]
      rfl

theorem isAbsolute_child (p : Path) (x : Name) (h : p.isAbsolute = true) :
    (p.child x.text).isAbsolute = true := by
  rw [child_eq, isAbsolute_join (isAbsolute_ofJoin [x]), h]

/-- **A path continued** has the components of both parts. -/
theorem componentsIn_join (hq : q.isAbsolute = false) :
    componentsIn (p.join q).text.toList =
      componentsIn p.text.toList ++ componentsIn q.text.toList := by
  rw [join, hq, Bool.false_or]
  by_cases hempty : p.text.isEmpty = true
  · rw [if_pos hempty, String.isEmpty_iff.mp hempty]
    rfl
  · rw [if_neg hempty]
    split
    · next hlast =>
      -- the separator at the end of the first part is the one between the two
      obtain ⟨init, hinit⟩ : ∃ init, p.text.toList = init ++ ['/'] :=
        List.getLast?_eq_some_iff.mp hlast
      simp only [String.toList_append, hinit, List.append_assoc, List.singleton_append]
      rw [componentsIn_append, componentsIn_append]
      simp [componentsIn, Text.splitChars, Component.ofSegment]
    · simp only [String.toList_append, List.append_assoc]
      exact componentsIn_append p.text.toList q.text.toList

theorem components_join (hp : p.isAbsolute = true) (hq : q.isAbsolute = false) :
    (p.join q).components = p.components ++ componentsIn q.text.toList := by
  rw [components_eq_root_cons hp, components_eq_root_cons ((isAbsolute_join hq).trans hp),
    componentsIn_join hq, List.cons_append]

/-- An absolute path continued with a name has one more component. -/
theorem components_child (h : p.isAbsolute = true) (x : Name) :
    (p.child x.text).components = p.components ++ [.normal x.text] := by
  have hrel := isAbsolute_name x
  rw [child, components_join h hrel, componentsIn_name]

/-- A path that ends in a name has that as its file name. -/
theorem fileName?_of_componentsIn {cs : List Component} {t : String}
    (h : componentsIn p.text.toList = cs ++ [.normal t]) : p.fileName? = some t := by
  have hlast : p.components.getLast? = some (.normal t) := by
    cases habs : p.isAbsolute with
    | true =>
      rw [components_eq_root_cons habs, h, ← List.cons_append, List.getLast?_concat]
    | false =>
      have hbody : p.segments.filterMap Component.ofSegment = cs ++ [.normal t] := by
        rw [← h, segments, habs, if_neg Bool.false_ne_true, componentsIn]
      rw [components, habs, if_neg Bool.false_ne_true, hbody]
      split
      · rw [← List.cons_append, List.getLast?_concat]
      · rw [List.getLast?_concat]
  rw [fileName?, hlast]

theorem fileName?_child (p : Path) (x : Name) : (p.child x.text).fileName? = some x.text := by
  have hsingle : (ofJoin [x]).text = x.text := by rw [ofJoin_singleton]
  apply fileName?_of_componentsIn
  rw [child_eq, componentsIn_join (isAbsolute_ofJoin _), hsingle,
    componentsIn_name]

/-- The extension of a name is what follows its last dot. -/
theorem extensionOf?_eq {name : String} {a b : List Char} (h : name.toList = a ++ '.' :: b)
    (ha : a ≠ []) (hb : '.' ∉ b) : extensionOf? name = some (String.ofList b) := by
  obtain ⟨s, segs, hsegs⟩ := List.exists_cons_of_ne_nil (List.reverse_ne_nil_iff.mpr
    (Text.splitChars_ne_nil '.' a))
  have hbefore : ['.'].intercalate (s :: segs).reverse = a := by
    rw [← hsegs, List.reverse_reverse, Text.intercalate_splitChars]
  have hcut : (Text.splitChars '.' name.toList).reverse = b :: s :: segs := by
    rw [h, Text.splitChars_append, Text.splitChars_of_not_mem hb, List.reverse_append, hsegs]
    rfl
  rw [extensionOf?, hcut]
  simp only [hbefore]
  rw [if_neg (by simpa using ha)]

/-- **A name has an extension** if it has a dot that it does not start with. -/
theorem extensionOf?_eq_some_iff {name e : String} :
    extensionOf? name = some e ↔
      '.' ∉ e.toList ∧ ∃ stem, stem ≠ [] ∧ name.toList = stem ++ '.' :: e.toList := by
  constructor
  · intro h
    rw [extensionOf?] at h
    split at h
    · simp at h
    · simp at h
    · next last before hne hcut =>
      have hfields : Text.splitChars '.' name.toList = before.reverse ++ [last] := by
        rw [← List.reverse_reverse (Text.splitChars '.' name.toList), hcut, List.reverse_cons]
      split at h
      · simp at h
      · next hstem =>
        obtain rfl : String.ofList last = e := by simpa using h
        have hbefore : before.reverse ≠ [] := mt List.reverse_eq_nil_iff.mp hne
        rw [String.toList_ofList]
        have hfield : last ∈ Text.splitChars '.' name.toList := by simp [hfields]
        refine ⟨Text.sep_not_mem_of_mem_splitChars hfield,
          ['.'].intercalate before.reverse, by simpa using hstem, ?_⟩
        rw [← Text.intercalate_splitChars '.' name.toList, hfields,
          Text.intercalate_append hbefore (List.cons_ne_nil last []), List.intercalate_singleton]
  · rintro ⟨hdot, stem, hstem, hname⟩
    rw [extensionOf?_eq hname hstem hdot, String.ofList_toList]

/-- Absolute paths of the same components have paths of the same components above them. -/
theorem components_parent?_congr (hp : p.isAbsolute = true) (hq : q.isAbsolute = true)
    (h : p.components = q.components) :
    p.parent?.map components = q.parent?.map components := by
  cases hpp : p.parent? with
  | none =>
    rw [(parent?_eq_none_iff hq).mpr (h ▸ (parent?_eq_none_iff hp).mp hpp)]
  | some above =>
    cases hqp : q.parent? with
    | none =>
      rw [(parent?_eq_none_iff hp).mpr (h ▸ (parent?_eq_none_iff hq).mp hqp)] at hpp
      simp at hpp
    | some above' =>
      obtain ⟨c, hc⟩ := components_parent? hp hpp
      obtain ⟨c', hc'⟩ := components_parent? hq hqp
      rw [Option.map_some, Option.map_some, (List.append_inj' (hc.symm.trans (h.trans hc')) rfl).1]

/-! ### Paths continued with names -/

/-- A separator and a name behind a text are one more segment. -/
theorem segments_of_append (x : Name) (hp : p.text.toList ≠ [])
    (h : q.text.toList = p.text.toList ++ '/' :: x.text.toList) :
    q.isAbsolute = p.isAbsolute ∧ q.segments = p.segments ++ [x.text.toList] := by
  have habs : q.isAbsolute = p.isAbsolute := by
    rw [isAbsolute, isAbsolute, h, List.head?_append_of_ne_nil _ hp]
  refine ⟨habs, ?_⟩
  rw [segments, segments, habs, h, List.tail_append_of_ne_nil hp, ← apply_ite (· ++ _),
    Text.splitChars_append, Text.splitChars_of_not_mem x.slash_not_mem]

/-- **The last segment** of a path continued with a name is the name. -/
theorem exists_segments_child (p : Path) (x : Name) :
    ∃ init, (p.child x.text).segments = init ++ [x.text.toList] := by
  have hrel := isAbsolute_name x
  have hname : (⟨x.text⟩ : Path).segments = [] ++ [x.text.toList] := by
    rw [segments, hrel, if_neg Bool.false_ne_true]
    exact Text.splitChars_of_not_mem x.slash_not_mem
  rw [child, join, hrel, Bool.false_or]
  split
  · exact ⟨[], hname⟩
  · next hempty =>
    rw [String.isEmpty_iff, ← String.toList_eq_nil_iff] at hempty
    split
    · next hlast =>
      obtain ⟨b, hb⟩ := List.getLast?_eq_some_iff.mp hlast
      cases b with
      | nil =>
        -- the root
        have habs : (⟨p.text ++ x.text⟩ : Path).isAbsolute = true := by
          simp [isAbsolute, hb]
        refine ⟨[], ?_⟩
        rw [segments, habs, if_pos rfl, String.toList_append, hb]
        exact Text.splitChars_of_not_mem x.slash_not_mem
      | cons c b =>
        exact ⟨_, (segments_of_append (p := ⟨String.ofList (c :: b)⟩) x (by simp)
          (by simp [hb])).2⟩
    · exact ⟨_, (segments_of_append (p := p) x hempty (by simp)).2⟩

/-- **Above a path continued with two names** there is the path continued with the first. -/
theorem parent?_child_child (p : Path) (x y : Name) :
    ((p.child x.text).child y.text).parent? = some (p.child x.text) := by
  obtain ⟨init, hinit⟩ := exists_segments_child p x
  have hempty : (p.child x.text).text.isEmpty = false := isEmpty_text_child p x
  have htext : ((p.child x.text).child y.text).text.toList =
      (p.child x.text).text.toList ++ '/' :: y.text.toList := by
    have hrel := isAbsolute_name y
    have hlast : (p.child x.text).text.toList.getLast? ≠ some '/' := by
      simpa [hasTrailingSlash] using hasTrailingSlash_child p x
    rw [child, join, hrel, hempty, Bool.or_self, if_neg Bool.false_ne_true, if_neg hlast]
    simp
  obtain ⟨habs, hsegs⟩ := segments_of_append y (by simpa using hempty) htext
  -- neither name is idle
  have hkeep : ∀ (z : Name) absolute rest,
      dropIdle absolute (z.text.toList :: rest) = z.text.toList :: rest := by
    intro z absolute rest
    have hz := z.valid
    simp only [Bool.and_eq_true, bne_iff_ne, ne_eq, ← String.toList_inj] at hz
    rw [dropIdle, if_neg]
    simpa [z.toList_ne_nil] using fun hdot => absurd hdot hz.1.1.2
  rw [parent?, hsegs, List.reverse_concat, hkeep]
  simp only [habs]
  rw [hinit, List.reverse_concat, hkeep, ← List.reverse_concat, List.reverse_reverse, ← hinit]
  -- the segments that are kept make up the text
  have hwhole : ∀ r : Path, (if r.isAbsolute = true then
      "/" ++ String.ofList (['/'].intercalate r.segments)
      else String.ofList (['/'].intercalate r.segments)) = r.text := by
    intro r
    rw [← String.toList_inj, toList_text_eq r, lead]
    split <;> simp
  rw [hwhole]

/-! ### Idle steps -/

/-- The steps of segments that stand for no component lead nowhere. -/
theorem eq_stay_of_idle {segs : List (List Char)} (h : ∀ s ∈ segs, IsIdle s) :
    ∀ s ∈ (segs.filter (· ≠ [])).map Step.ofSegment, s = .stay := by
  intro s hs
  obtain ⟨seg, hseg, rfl⟩ := List.mem_map.mp hs
  obtain ⟨hmem, hne⟩ := List.mem_filter.mp hseg
  rcases h seg hmem with rfl | rfl
  · simp at hne
  · rfl

/-- The last step along a path that goes on from the path above it: idle ones stand before and
behind it. -/
theorem exists_step_of_parent? (h : p.parent? = some above) :
    ∃ idle s idle', p.steps = above.steps ++ (idle ++ s :: idle') ∧
      (∀ t ∈ idle, t = .stay) ∧ ∀ t ∈ idle', t = .stay := by
  obtain ⟨kept, more, hsegs, habove, idle, s, idle', rfl, hidle, hidle', hs, -⟩ :=
    segments_parent? h
  refine ⟨_, Step.ofSegment s, _, ?_, eq_stay_of_idle hidle, eq_stay_of_idle hidle'⟩
  have hkept : above.steps = (kept.filter (· ≠ [])).map Step.ofSegment := by
    rcases habove with habove | ⟨hnil, habove⟩
    · rw [steps, habove]
    · rw [steps, habove, hnil]
      rfl
  rw [hkept, steps, hsegs, List.filter_append, List.filter_append,
    List.filter_cons_of_pos (by simp [hs]), List.map_append, List.map_append, List.map_cons]

/-- The steps along a path that has none above it lead nowhere. -/
theorem eq_stay_of_parent?_eq_none (h : p.parent? = none) : ∀ s ∈ p.steps, s = .stay := by
  obtain ⟨idle, hsegs, hidle, -⟩ := exists_eq_append_dropIdle p.isAbsolute p.segments.reverse
  rw [parent?] at h
  cases hdrop : dropIdle p.isAbsolute p.segments.reverse with
  | cons s rest => simp [hdrop] at h
  | nil =>
    rw [hdrop, List.append_nil] at hsegs
    exact eq_stay_of_idle fun s hs => hidle s (hsegs ▸ List.mem_reverse.mpr hs)

/-- **Above a path continued with a name** there is the path, but for idle steps at its end. -/
theorem exists_parent?_child (p : Path) (x : Name) :
    ∃ q idle, (p.child x.text).parent? = some q ∧ p.steps = q.steps ++ idle ∧
      ∀ s ∈ idle, s = .stay := by
  cases hq : (p.child x.text).parent? with
  | none =>
    have hdown := eq_stay_of_parent?_eq_none hq (.down x) (by simp [steps_child])
    cases hdown
  | some q =>
    obtain ⟨idle, s, idle', hsteps, hidle, hidle'⟩ := exists_step_of_parent? hq
    rw [steps_child] at hsteps
    -- what is behind the last step is idle, and a name is not
    obtain rfl : idle' = [] := by
      by_contra hne
      obtain ⟨init, last, rfl⟩ := (List.eq_nil_or_concat' idle').resolve_left hne
      have hsteps : p.steps ++ [.down x] = (q.steps ++ (idle ++ s :: init)) ++ [last] := by
        simpa using hsteps
      obtain ⟨-, hlast⟩ := List.append_inj' hsteps rfl
      obtain rfl := List.singleton_inj.mp hlast
      cases hidle' (.down x) (by simp)
    rw [← List.append_assoc] at hsteps
    exact ⟨q, idle, rfl, (List.append_inj' hsteps rfl).1, hidle⟩

/-- A path ends in a dot behind a name. -/
def EndsInDot (p : Path) : Prop :=
  ∃ before x after, p.steps = before ++ .down x :: after ∧ after ≠ [] ∧ ∀ s ∈ after, s = .stay

theorem EndsInDot.getLast?_steps (h : p.EndsInDot) : p.steps.getLast? = some .stay := by
  obtain ⟨before, x, after, hsteps, hne, hstay⟩ := h
  obtain ⟨a, last, rfl⟩ := (List.eq_nil_or_concat' after).resolve_left hne
  obtain rfl : last = .stay := hstay last (by simp)
  rw [hsteps, ← List.cons_append, ← List.append_assoc, List.getLast?_concat]

/-- A dot that counts stands alone. -/
theorem eq_nil_of_dropIdle_eq_dot {absolute : Bool} {segs rest : List (List Char)}
    (h : dropIdle absolute segs = ['.'] :: rest) : rest = [] := by
  induction segs with
  | nil => simp [dropIdle] at h
  | cons s segs ih =>
    rw [dropIdle] at h
    split at h
    · exact ih h
    · next hkeep =>
      obtain ⟨rfl, rfl⟩ := List.cons.inj h
      simp only [decide_true, Bool.true_and, Bool.or_eq_true, Bool.not_eq_true', not_or,
        Bool.not_eq_false, List.isEmpty_iff] at hkeep
      exact hkeep.2.2

/-- The last segment of the path above counts, and if it is a dot it is the only one. -/
theorem segments_parent?_cases (h : p.parent? = some above) :
    above.segments = [[]] ∨ ∃ init t, above.segments = init ++ [t] ∧ t ≠ [] ∧
      (t = ['.'] → init = []) := by
  obtain ⟨s, rest, hdrop, habove⟩ := exists_dropIdle_of_parent? h
  obtain ⟨idle', hsegs, -, -⟩ := exists_eq_append_dropIdle p.isAbsolute p.segments.reverse
  obtain ⟨idle, hrest, -, hhead⟩ := exists_eq_append_dropIdle p.isAbsolute rest
  have hsub : ∀ t ∈ dropIdle p.isAbsolute rest, '/' ∉ t := by
    intro t ht
    refine slash_not_mem_segment (p := p) (List.mem_reverse.mp ?_)
    rw [hsegs, hdrop, hrest]
    simp [ht]
  have hcut := segments_eq_or (isAbsolute_parent? h) habove
    fun t ht => hsub t (List.mem_reverse.mp ht)
  cases hkept : dropIdle p.isAbsolute rest with
  | nil =>
    rw [hkept] at hcut
    exact .inl (hcut.elim (fun hnil => absurd hnil (segments_ne_nil above)) And.right)
  | cons t kept =>
    rw [hkept] at hcut hhead
    have hsegments := hcut.resolve_right fun hnil => by simp at hnil
    refine .inr ⟨kept.reverse, t, by simpa using hsegments, (hhead t rfl).1, ?_⟩
    rintro rfl
    rw [eq_nil_of_dropIdle_eq_dot hkept, List.reverse_nil]

/-- **The path above a path** does not end in a dot behind a name. -/
theorem not_endsInDot_parent? (h : p.parent? = some above) : ¬ above.EndsInDot := by
  rintro ⟨before, x, after, hsteps, hne, hstay⟩
  obtain ⟨a, last, rfl⟩ := (List.eq_nil_or_concat' after).resolve_left hne
  obtain rfl : last = .stay := hstay last (by simp)
  rcases segments_parent?_cases h with hnil | ⟨init, t, hsegs, ht, hdot⟩
  · rw [steps, hnil] at hsteps
    simp at hsteps
  · rw [steps, hsegs, List.filter_append, List.map_append,
      List.filter_cons_of_pos (by simp [ht]), List.filter_nil, List.map_singleton,
      ← List.cons_append, ← List.append_assoc] at hsteps
    obtain ⟨hinit, hlast⟩ := List.append_inj' hsteps rfl
    -- the last segment is a dot, so there is no other
    have hdotted : t = ['.'] := by
      by_contra hnot
      have hslash : '/' ∉ t := slash_not_mem_segment (p := above) (by simp [hsegs])
      by_cases hup : t = ['.', '.']
      · simp [hup, Step.ofSegment, Name.ofString?] at hlast
      · obtain ⟨y, rfl⟩ := Name.exists_toList_eq ht hnot hup hslash
        simp [Step.ofSegment_name] at hlast
    rw [hdot hdotted] at hinit
    simp at hinit

end SuiteGate.Path
