import SuiteGate.Proofs.Disk.Lookups
import SuiteGate.Proofs.Parents
/-!
# Spellings of a path

A path can be spelled with more separators than it needs, and with `.` between them.  What it
leads to does not depend on that: the steps that lead somewhere else (`Path.moves`) are those of
its components (`moves_steps`), and a look-up that goes on below some steps only sees these
(`followLinks_congr`).  So paths of the same components have the same files below them
(`stat_child_congr`) and lead to the same directory (`stat_dir_congr`).
-/

namespace SuiteGate

namespace Path

/-- Those of some steps that lead somewhere else. -/
def moves (steps : List Step) : List Step :=
  steps.filter (· ≠ .stay)

/-- The step that a component asks for. -/
def Component.step? : Component → Option Step
  | .root => none
  | .current => none
  | .parent => some .up
  | .normal name => some (Step.ofSegment name.toList)

/-- A segment asks for the step of its component, or for none. -/
theorem moves_ofSegment {s : List Char} (hslash : '/' ∉ s) :
    moves (if s = [] then [] else [Step.ofSegment s]) =
      ((Component.ofSegment s).bind Component.step?).toList := by
  by_cases hidle : IsIdle s
  · rw [ofSegment_eq_none_iff.mpr hidle, Option.bind_none]
    rcases hidle with rfl | rfl
    · rfl
    · rfl
  · have hsome : ¬ (s = [] || s = ['.']) = true := by simpa [IsIdle] using hidle
    rw [if_neg fun h => hidle (.inl h), Component.ofSegment, if_neg hsome]
    by_cases hup : s = ['.', '.']
    · subst hup
      rfl
    · obtain ⟨x, rfl⟩ := Name.exists_toList_eq (fun h => hidle (.inl h))
        (fun h => hidle (.inr h)) hup hslash
      rw [if_neg hup, Option.bind_some, Component.step?, String.toList_ofList, Step.ofSegment_name]
      rfl

theorem moves_append (a b : List Step) : moves (a ++ b) = moves a ++ moves b :=
  List.filter_append ..

theorem moves_segments {segs : List (List Char)} (hslash : ∀ s ∈ segs, '/' ∉ s) :
    moves ((segs.filter (· ≠ [])).map Step.ofSegment) =
      (segs.filterMap Component.ofSegment).filterMap Component.step? := by
  induction segs with
  | nil => rfl
  | cons s segs ih =>
    obtain ⟨hs, hrest⟩ := List.forall_mem_cons.mp hslash
    have hsteps : ((s :: segs).filter (· ≠ [])).map Step.ofSegment =
        (if s = [] then [] else [Step.ofSegment s]) ++
          (segs.filter (· ≠ [])).map Step.ofSegment := by
      by_cases hnil : s = []
      · rw [if_pos hnil, List.nil_append, List.filter_cons_of_neg (by simp [hnil])]
      · rw [if_neg hnil, List.filter_cons_of_pos (by simp [hnil]), List.map_cons,
          List.singleton_append]
    have hcomponents : ((s :: segs).filterMap Component.ofSegment).filterMap Component.step? =
        ((Component.ofSegment s).bind Component.step?).toList ++
          (segs.filterMap Component.ofSegment).filterMap Component.step? := by
      rw [List.filterMap_filterMap, List.filterMap_filterMap, List.filterMap_cons]
      cases (Component.ofSegment s).bind Component.step? <;> rfl
    rw [hsteps, hcomponents, moves_append, moves_ofSegment hs, ih hrest]

/-- **The steps that lead somewhere else** are those of the components. -/
theorem moves_steps (p : Path) : moves p.steps = p.components.filterMap Component.step? := by
  rw [steps, moves_segments fun s hs => slash_not_mem_segment hs, components]
  split
  · rfl
  · split
    · rfl
    · rfl

/-- The names that a path goes down are those of its components. -/
theorem names_eq (p : Path) :
    p.names = (p.components.filterMap Component.step?).filterMap Step.name? := by
  rw [← moves_steps, moves, names, List.filterMap_filter]
  refine List.filterMap_congr fun s _ => ?_
  cases s <;> rfl

/-- **The file name of a path** is the last name that it goes down. -/
theorem getLast?_names_of_fileName? {p : Path} {t : String} (h : p.fileName? = some t) :
    ∃ x, p.names.getLast? = some x ∧ x.text = t := by
  rw [fileName?] at h
  split at h
  · next name hlast =>
    obtain rfl := Option.some.inj h
    obtain ⟨init, hinit⟩ := List.getLast?_eq_some_iff.mp hlast
    obtain ⟨x, rfl⟩ := exists_name_of_normal (List.mem_of_getLast? hlast)
    refine ⟨x, ?_, rfl⟩
    have hstep : (Component.normal x.text).step? = some (.down x) :=
      congrArg some (Step.ofSegment_name x)
    rw [names_eq, hinit, List.filterMap_append, List.filterMap_append,
      List.filterMap_cons_some hstep]
    exact List.getLast?_concat
  · cases h

theorem mem_toList_text_iff_segments {p : Path} {c : Char} (hsep : c ≠ '/') :
    c ∈ p.text.toList ↔ ∃ s ∈ p.segments, c ∈ s := by
  rw [toList_text_eq p, List.mem_append, segments, Text.intercalate_splitChars,
    ← Text.mem_iff_mem_splitChars hsep, or_iff_right]
  rw [lead]
  split <;> simp [hsep]

/-- The characters of a path, those aside that only spell it, are those of its components. -/
theorem mem_toList_text_iff {p : Path} {c : Char} (hsep : c ≠ '/') (hdot : c ≠ '.') :
    c ∈ p.text.toList ↔ ∃ name, .normal name ∈ p.components ∧ c ∈ name.toList := by
  have hcomponents : ∀ name, .normal name ∈ p.components ↔
      ∃ s ∈ p.segments, Component.ofSegment s = some (.normal name) := by
    intro name
    rw [← List.mem_filterMap, components]
    split
    · simp
    · split
      · simp
      · rfl
  rw [mem_toList_text_iff_segments hsep]
  constructor
  · rintro ⟨s, hs, hc⟩
    have hname : Component.ofSegment s = some (.normal (String.ofList s)) := by
      rw [Component.ofSegment, if_neg, if_neg]
      · rintro rfl
        simp [hdot] at hc
      · simp only [Bool.or_eq_true, decide_eq_true_eq, not_or]
        exact ⟨List.ne_nil_of_mem hc, by rintro rfl; simp [hdot] at hc⟩
    exact ⟨String.ofList s, (hcomponents _).mpr ⟨s, hs, hname⟩, by simpa using hc⟩
  · rintro ⟨name, hname, hc⟩
    obtain ⟨s, hs, hof⟩ := (hcomponents name).mp hname
    refine ⟨s, hs, ?_⟩
    rw [Component.ofSegment] at hof
    split at hof
    · simp at hof
    · split at hof
      · simp at hof
      · obtain rfl : String.ofList s = name := by simpa using hof
        simpa using hc

theorem isAbsolute_iff_mem (p : Path) : p.isAbsolute = true ↔ .root ∈ p.components := by
  have hbody : .root ∉ p.segments.filterMap Component.ofSegment := by
    intro hmem
    obtain ⟨s, -, hs⟩ := List.mem_filterMap.mp hmem
    rw [Component.ofSegment] at hs
    split at hs
    · simp at hs
    · split at hs <;> simp at hs
  rw [components]
  split
  · next h => simp [h]
  · next h =>
    split
    · simp [h, hbody]
    · simp [h, hbody]

end Path

namespace Disk

/-! ### Look-ups below steps -/

section

variable {d : Disk} {final : Bool} {k : ℕ} {here : List Name} {a b more : List Path.Step}

/-- Steps that lead nowhere else are passed over. -/
theorem followLinks_of_moves_eq_nil (h : Path.moves b = []) :
    followLinks d.root final k here (b ++ more) = followLinks d.root final k here more := by
  induction b with
  | nil => rfl
  | cons s b ih =>
    cases s with
    | stay =>
      rw [List.cons_append, followLinks_stay]
      exact ih (by simpa [Path.moves] using h)
    | up => simp [Path.moves] at h
    | down x => simp [Path.moves] at h

/-- The steps before one that leads somewhere else are passed over. -/
theorem exists_followLinks_of_moves_eq_cons {s : Path.Step} {m : List Path.Step}
    (h : Path.moves b = s :: m) :
    ∃ b', Path.moves b' = m ∧
      followLinks d.root final k here (b ++ more) =
        followLinks d.root final k here (s :: (b' ++ more)) := by
  induction b with
  | nil => simp [Path.moves] at h
  | cons t b ih =>
    by_cases ht : t = .stay
    · subst ht
      obtain ⟨b', hb', heq⟩ := ih (by simpa [Path.moves] using h)
      exact ⟨b', hb', by rw [List.cons_append, followLinks_stay, heq]⟩
    · have hcons : t :: Path.moves b = s :: m := by
        rw [← h, Path.moves, Path.moves, List.filter_cons_of_pos (by simp [ht])]
      obtain ⟨rfl, rfl⟩ := List.cons.inj hcons
      exact ⟨b, rfl, rfl⟩

/-- **What is found below some steps** only depends on those that lead somewhere else. -/
theorem followLinks_congr (h : Path.moves b = Path.moves a) (hmore : more ≠ []) :
    followLinks d.root final k here (b ++ more) = followLinks d.root final k here (a ++ more) := by
  have hend : ∀ l : List Path.Step, (l ++ more).isEmpty = false := by
    intro l
    cases l <;> cases more <;> simp_all
  -- the steps `b` are taken along, since a link puts the same new steps in front of both
  induction k, here, a using route_induction d true generalizing b with
  | nil k here => exact followLinks_of_moves_eq_nil h
  | stay k here rest ih =>
    rw [List.cons_append, followLinks_stay]
    exact ih (by simpa [Path.moves] using h)
  | up k here rest ih =>
    obtain ⟨b', hb', heq⟩ := exists_followLinks_of_moves_eq_cons (m := Path.moves rest) h
    rw [heq, List.cons_append, followLinks_up, followLinks_up]
    exact ih hb'
  | down k here x rest hp ih =>
    obtain ⟨b', hb', heq⟩ := exists_followLinks_of_moves_eq_cons (m := Path.moves rest) h
    rw [heq, List.cons_append]
    rcases hp with hp | hp
    · rw [followLinks_missing hp, followLinks_missing hp, hend, hend]
    · rw [followLinks_dir hp, followLinks_dir hp]
      exact ih hb'
  | file k here x rest data hk =>
    obtain ⟨b', -, heq⟩ := exists_followLinks_of_moves_eq_cons (m := Path.moves rest) h
    rw [heq, List.cons_append, followLinks_file hk, followLinks_file hk, hend, hend]
  | stop k here x target hf hk => simp at hf
  | turn k here x rest target hk hgo ih =>
    obtain ⟨b', hb', heq⟩ := exists_followLinks_of_moves_eq_cons (m := Path.moves rest) h
    rw [heq, List.cons_append, followLinks_turn hk (.inl (by simp [hmore])),
      followLinks_turn hk (.inl (by simp [hmore])), ← List.append_assoc, ← List.append_assoc]
    exact ih (by rw [Path.moves_append, Path.moves_append, hb'])
  | lost here x rest target hk hgo =>
    obtain ⟨b', -, heq⟩ := exists_followLinks_of_moves_eq_cons (m := Path.moves rest) h
    rw [heq, List.cons_append, followLinks_lost hk (.inl (by simp [hmore])),
      followLinks_lost hk (.inl (by simp [hmore]))]

end

/-! ### Paths of the same components -/

section

variable {d : Disk} {cwd : List Name} {p q : Path}

theorem origin_congr (h : p.components = q.components) : origin cwd p = origin cwd q := by
  have habs : p.isAbsolute = q.isAbsolute := by
    rw [Bool.eq_iff_iff, Path.isAbsolute_iff_mem, Path.isAbsolute_iff_mem, h]
  rw [origin, origin, habs]

theorem mem_text_congr (h : p.components = q.components) :
    '\x00' ∈ p.text.toList ↔ '\x00' ∈ q.text.toList := by
  rw [Path.mem_toList_text_iff (by decide) (by decide),
    Path.mem_toList_text_iff (by decide) (by decide), h]

theorem moves_congr (h : p.components = q.components) :
    Path.moves p.steps = Path.moves q.steps := by
  rw [Path.moves_steps, Path.moves_steps, h]

/-- **Paths of the same components** have the same things below them. -/
theorem locate_child_congr (h : p.components = q.components) (x : Name) (final : Bool) :
    d.locate cwd (p.child x.text) final = d.locate cwd (q.child x.text) final := by
  have hrel : (Path.ofJoin [x]).isAbsolute = false := Path.isAbsolute_ofJoin [x]
  have horigin : origin cwd (p.child x.text) = origin cwd (q.child x.text) := by
    rw [Path.child_eq, Path.child_eq, origin_join hrel, origin_join hrel, origin_congr h]
  have hnul : (p.child x.text).text.toList.contains '\x00' =
      (q.child x.text).text.toList.contains '\x00' := by
    rw [Bool.eq_iff_iff, List.contains_iff_mem, List.contains_iff_mem,
      Path.mem_toList_child (by decide), Path.mem_toList_child (by decide), mem_text_congr h]
  have hresolve : d.resolve cwd (p.child x.text) final = d.resolve cwd (q.child x.text) final := by
    rw [resolve, resolve, resolveSteps, resolveSteps, hnul, Path.isEmpty_text_child,
      Path.isEmpty_text_child, horigin, stepsOf_child, stepsOf_child,
      followLinks_congr (moves_congr h) (List.cons_ne_nil _ [])]
  rw [locate, locate, hresolve]

theorem stat_child_congr (h : p.components = q.components) (x : Name) :
    d.stat cwd (p.child x.text) = d.stat cwd (q.child x.text) := by
  rw [stat, stat, locate_child_congr h]

/-- The look-up of a directory does not mind a separator at the end of its path. -/
theorem followLinks_append_stay {k : ℕ} {here place : List Name} {steps : List Path.Step} {n : Node}
    (hdir : n.isDir = true) (hhere : d.DirAt here) :
    followLinks d.root true k here (steps ++ [.stay]) = .ok (.present place n) ↔
      followLinks d.root true k here steps = .ok (.present place n) := by
  constructor
  · intro h
    obtain ⟨g, m, k', hg, -, hend⟩ :=
      exists_dir_of_followLinks_append (List.cons_ne_nil _ []) hhere h
    have hm : d.get? g = some m := (followLinks_eq_present_iff.mp hg).2.1
    rw [followLinks_stay, followLinks_nil, hm] at hend
    obtain ⟨rfl, rfl⟩ := Place.present.inj (Except.ok.inj hend)
    exact hg
  · intro h
    obtain ⟨hgoal, hn, hmet⟩ := followLinks_eq_present_iff.mp h
    rcases route_append d true k here steps (List.cons_ne_nil Path.Step.stay []) with
      ⟨-, hfile⟩ | ⟨g, k', hg, heq⟩
    · obtain ⟨data, hdata⟩ := hfile place hgoal
      rw [kindAt_of_get? hn, Option.some.injEq, Node.kind_eq_file_iff] at hdata
      simp [hdata, Node.isDir] at hdir
    · obtain rfl : place = g := Option.some.inj (hgoal.symm.trans hg)
      rw [followLinks_eq_present_iff, heq, route_stay, route_nil]
      exact ⟨rfl, hn, by simpa [Route.andThen] using hmet⟩

/-- The directory that an absolute path leads to is found along its steps. -/
theorem stat_eq_ok_iff_of_isDir {n : Node} (hp : p.isAbsolute = true) (hdir : n.isDir = true) :
    d.stat cwd p = .ok n ↔ '\x00' ∉ p.text.toList ∧
      ∃ place, followLinks d.root true maxLinks [] (p.steps ++ [.stay]) =
        .ok (.present place n) := by
  have horigin : origin cwd p = [] := by rw [origin, if_pos hp]
  have hempty : p.text.isEmpty = false := by
    rw [Bool.eq_false_iff, ne_eq, String.isEmpty_iff]
    intro hnil
    rw [Path.isAbsolute, hnil] at hp
    simp at hp
  have hend : ∀ place, followLinks d.root true maxLinks [] (stepsOf p) = .ok (.present place n) ↔
      followLinks d.root true maxLinks [] (p.steps ++ [.stay]) = .ok (.present place n) := by
    intro place
    rw [stepsOf]
    split
    · rfl
    · rw [List.append_nil, followLinks_append_stay hdir (dirAt_nil d)]
  rw [stat_eq_ok_iff]
  constructor
  · rintro ⟨place, hloc⟩
    obtain ⟨hfol, hway⟩ := locate_eq_ok_iff.mp hloc
    rw [wayTo, horigin, ← followLinks_eq_present_iff, hend] at hway
    exact ⟨by simpa using hfol.noNul, place, hway⟩
  · rintro ⟨hnul, place, hway⟩
    refine ⟨place, locate_eq_ok_iff.mpr ⟨⟨by simpa using hnul, hempty, ?_⟩, ?_⟩⟩
    · rw [horigin]
      exact dirAt_nil d
    · rw [wayTo, horigin, ← followLinks_eq_present_iff, hend]
      exact hway

/-- **Paths of the same components** lead to the same directory, if any. -/
theorem stat_dir_congr (hp : p.isAbsolute = true) (hq : q.isAbsolute = true)
    (h : p.components = q.components) {n : Node} (hdir : n.isDir = true) :
    d.stat cwd p = .ok n ↔ d.stat cwd q = .ok n := by
  rw [stat_eq_ok_iff_of_isDir hp hdir, stat_eq_ok_iff_of_isDir hq hdir, mem_text_congr h]
  simp only [followLinks_congr (moves_congr h) (List.cons_ne_nil Path.Step.stay [])]

end

end Disk

end SuiteGate
