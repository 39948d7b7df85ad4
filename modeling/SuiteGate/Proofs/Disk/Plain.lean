import SuiteGate.Proofs.Disk.Listings
import SuiteGate.Proofs.Disk.Spellings
import SuiteGate.Proofs.Disk.Walks
/-!
# Plain trees

In a tree that is made of directories and regular files only (`Disk.Plain`) a look-up goes from
place to place along its steps (`Plain.followLinks_append`).  So a path that is continued leads to
what is one step further (`Plain.locate_join_iff`).
-/

namespace SuiteGate

namespace Path

variable {p q : Path} {s : List Char}

theorem isAbsolute_segment (hs : '/' ∉ s) : (⟨String.ofList s⟩ : Path).isAbsolute = false := by
  rw [isAbsolute, String.toList_ofList, decide_eq_false_iff_not]
  exact fun h => hs (List.mem_of_head? h)

/-- A path that is continued has a separator before what is new. -/
theorem exists_toList_join (hp : p.text.isEmpty = false) (hq : q.isAbsolute = false) :
    ∃ init, (p.join q).text.toList = init ++ '/' :: q.text.toList ∧
      (p.text.toList = init ∨ p.text.toList = init ++ ['/']) := by
  rw [join, hq, hp, if_neg (by simp)]
  split
  · next hlast =>
    obtain ⟨init, hinit⟩ := List.getLast?_eq_some_iff.mp hlast
    exact ⟨init, by simp [hinit], .inr hinit⟩
  · exact ⟨p.text.toList, by simp, .inl rfl⟩

theorem mem_toList_join (hp : p.text.isEmpty = false) (hq : q.isAbsolute = false) {c : Char}
    (hc : c ≠ '/') : c ∈ (p.join q).text.toList ↔ c ∈ p.text.toList ∨ c ∈ q.text.toList := by
  obtain ⟨init, hjoin, hinit⟩ := exists_toList_join hp hq
  rw [hjoin]
  rcases hinit with hinit | hinit <;> simp [hinit, hc]

theorem isEmpty_text_join (hp : p.text.isEmpty = false) (hq : q.isAbsolute = false) :
    (p.join q).text.isEmpty = false := by
  obtain ⟨init, hjoin, -⟩ := exists_toList_join hp hq
  rw [Bool.eq_false_iff, ne_eq, String.isEmpty_iff, ← String.toList_eq_nil_iff, hjoin]
  simp

theorem steps_segment (hs : '/' ∉ s) :
    (⟨String.ofList s⟩ : Path).steps = if s = [] then [] else [Step.ofSegment s] := by
  rw [steps_eq, String.toList_ofList, stepsIn, Text.splitChars_of_not_mem hs]
  by_cases hnil : s = []
  · rw [if_pos hnil, hnil]
    rfl
  · rw [if_neg hnil, List.filter_cons_of_pos (by simpa using hnil)]
    rfl

/-- A segment alone goes one step. -/
theorem stepsOf_segment (hs : '/' ∉ s) (hne : s ≠ []) :
    Disk.stepsOf ⟨String.ofList s⟩ = [Step.ofSegment s] := by
  have hlast : s.getLast? ≠ some '/' := fun h => hs (List.mem_of_getLast? h)
  rw [Disk.stepsOf, steps_segment hs, if_neg hne, hasTrailingSlash, String.toList_ofList,
    decide_eq_false hlast, if_neg Bool.false_ne_true, List.append_nil]

/-- A path that is continued with a segment goes one step further. -/
theorem stepsOf_join_segment (hp : p.text.isEmpty = false) (hs : '/' ∉ s) :
    Disk.stepsOf (p.join ⟨String.ofList s⟩) = p.steps ++ [Step.ofSegment s] := by
  have hrel := isAbsolute_segment hs
  obtain ⟨init, hjoin, -⟩ := exists_toList_join hp hrel
  rw [String.toList_ofList] at hjoin
  rw [Disk.stepsOf, steps_join hrel, steps_segment hs, hasTrailingSlash, hjoin]
  by_cases hnil : s = []
  · subst hnil
    simp
    rfl
  · have hlast : (init ++ '/' :: s).getLast? ≠ some '/' := by
      rw [List.append_cons, List.getLast?_append_of_ne_nil _ hnil]
      exact fun h => hs (List.mem_of_getLast? h)
    rw [if_neg hnil, decide_eq_false hlast, if_neg Bool.false_ne_true, List.append_nil]

end Path

/-- Whether a node is a regular file, or a directory that can be listed. -/
def Node.isPlain : Node → Bool
  | .file _ => true
  | .link _ => false
  | .dir access _ => access.listable

namespace Disk

/-- A tree is made of directories, which can be listed, and regular files, and their names can be
part of a path. -/
structure Plain (d : Disk) : Prop where
  noLink : ∀ place target, d.kindAt place ≠ some (.link target)
  listable : ∀ place w, d.kindAt place ≠ some (.dir ⟨false, w⟩)
  noNul : ∀ place (x : Name), d.kindAt (place ++ [x]) ≠ none → '\x00' ∉ x.text.toList

/-- **A walk finds out** whether a whole disk is plain. -/
theorem plain_of_all_walk {d : Disk} {p : Path}
    (h : (d.root.walk p []).all (Node.passes fun place n =>
      n.isPlain && place.all fun x => !x.text.toList.contains '\x00') = true) : d.Plain := by
  have hall : ∀ place n, d.get? place = some n →
      n.isPlain = true ∧ ∀ x ∈ place, '\x00' ∉ x.text.toList := fun place n hn => by
    simpa using Node.forall_of_all_walk d.distinct h hn
  refine ⟨fun place target hk => ?_, fun place w hk => ?_, fun place x hk => ?_⟩
  · cases (hall place _ (get?_of_kindAt_link hk)).1
  · obtain ⟨n, hn, hkind⟩ := kindAt_eq_some_iff.mp hk
    obtain ⟨es, rfl⟩ := Node.kind_eq_dir_iff.mp hkind
    cases (hall place _ hn).1
  · obtain ⟨k, hk⟩ := Option.ne_none_iff_exists'.mp hk
    obtain ⟨n, hn, -⟩ := kindAt_eq_some_iff.mp hk
    exact (hall _ n hn).2 x (by simp)

namespace Plain

variable {d : Disk} {cwd here place : List Name} {p : Path} {n m : Node}

/-- **A longer look-up** goes on where the shorter one ended. -/
theorem followLinks_append (hd : d.Plain) {k : ℕ} {steps : List Path.Step} (hn : n.isDir = true)
    (h : followLinks d.root true k here steps = .ok (.present place n)) (more : List Path.Step) :
    followLinks d.root true k here (steps ++ more) = followLinks d.root true k place more := by
  induction here, steps using steps_induction d with
  | nil here =>
    rw [followLinks_nil] at h
    split at h
    · obtain ⟨rfl, -⟩ := Place.present.inj (Except.ok.inj h)
      rfl
    · simp at h
  | stay here rest ih =>
    rw [followLinks_stay] at h
    rw [List.cons_append, followLinks_stay, ih h]
  | up here rest ih =>
    rw [followLinks_up] at h
    rw [List.cons_append, followLinks_up, ih h]
  | down here x rest hp ih =>
    rcases hp with hp | hp
    · rw [followLinks_missing hp] at h
      split at h <;> simp at h
    · rw [followLinks_dir hp] at h
      rw [List.cons_append, followLinks_dir hp, ih h]
  | file here x rest data hk =>
    rw [followLinks_file hk] at h
    split at h
    · obtain ⟨-, rfl⟩ := Place.present.inj (Except.ok.inj h)
      simp [Node.isDir] at hn
    · simp at h
  | link here x rest target hk => exact absurd hk (hd.noLink _ target)

/-- A name leads to what it stands for. -/
theorem followLinks_down_iff (hd : d.Plain) {k : ℕ} {x : Name} :
    followLinks d.root true k here [.down x] = .ok (.present place m) ↔
      here ++ [x] = place ∧ d.get? place = some m := by
  rcases hk : d.kindAt (here ++ [x]) with - | data | target | l
  · rw [followLinks_missing hk]
    simp only [List.isEmpty_nil, if_true, Except.ok.injEq, reduceCtorEq, false_iff]
    rintro ⟨rfl, h⟩
    exact absurd (kindAt_of_get? h) (by simp [hk])
  · obtain ⟨n, hn, hkind⟩ := kindAt_eq_some_iff.mp hk
    obtain rfl := Node.kind_eq_file_iff.mp hkind
    rw [followLinks_file hk, if_pos List.isEmpty_nil, present_eq_iff hn]
  · exact absurd hk (hd.noLink _ target)
  · obtain ⟨n, hn, hdir⟩ := dirAt_iff.mp ⟨l, hk⟩
    rw [followLinks_dir ⟨l, hk⟩, followLinks_nil, hn]
    exact present_eq_iff hn

/-- What is found at the end of a path, a separator there aside. -/
theorem followLinks_steps (hp : d.locate cwd p true = .ok (here, n)) (hn : n.isDir = true) :
    followLinks d.root true maxLinks (origin cwd p) p.steps = .ok (.present here n) := by
  obtain ⟨hfol, hway⟩ := locate_eq_ok_iff.mp hp
  rw [wayTo, ← followLinks_eq_present_iff, stepsOf] at hway
  split at hway
  · exact (followLinks_append_stay hn hfol.start).mp hway
  · rwa [List.append_nil] at hway

/-- A segment alone leads one step from the current directory. -/
theorem locate_segment_iff (hp : d.locate cwd ⟨"."⟩ true = .ok (here, n)) (hn : n.isDir = true)
    {s : List Char} (hne : s ≠ []) (hs : '/' ∉ s) (hnul : '\x00' ∉ s) :
    d.locate cwd ⟨String.ofList s⟩ true = .ok (place, m) ↔
      followLinks d.root true maxLinks here [Path.Step.ofSegment s] = .ok (.present place m) := by
  obtain ⟨hfol, -⟩ := locate_eq_ok_iff.mp hp
  have hrel := Path.isAbsolute_segment hs
  have horigin : origin cwd ⟨String.ofList s⟩ = cwd := by rw [origin, hrel, if_neg (by simp)]
  have hsegment : d.Followable cwd ⟨String.ofList s⟩ := by
    refine ⟨by simpa using hnul, ?_, horigin.symm ▸ hfol.start⟩
    rw [Bool.eq_false_iff, ne_eq, String.isEmpty_iff, ← String.toList_eq_nil_iff,
      String.toList_ofList]
    exact hne
  obtain rfl : cwd = here := by
    have hhere : followLinks d.root true maxLinks cwd [.stay] = .ok (.present here n) :=
      followLinks_steps hp hn
    rw [followLinks_stay, followLinks_nil] at hhere
    split at hhere
    · exact (Place.present.inj (Except.ok.inj hhere)).1
    · simp at hhere
  rw [locate_eq_ok_iff, and_iff_right hsegment, wayTo, ← followLinks_eq_present_iff, horigin,
    Path.stepsOf_segment hs hne]

/-- **A path that is continued** leads to what is one step further. -/
theorem locate_join_iff (hd : d.Plain) (hp : d.locate cwd p true = .ok (here, n))
    (hn : n.isDir = true) {s : List Char} (hs : '/' ∉ s) (hnul : '\x00' ∉ s) :
    d.locate cwd (p.join ⟨String.ofList s⟩) true = .ok (place, m) ↔
      followLinks d.root true maxLinks here [Path.Step.ofSegment s] = .ok (.present place m) := by
  obtain ⟨hfol, -⟩ := locate_eq_ok_iff.mp hp
  have hrel := Path.isAbsolute_segment hs
  have hjoined : d.Followable cwd (p.join ⟨String.ofList s⟩) := by
    refine ⟨?_, Path.isEmpty_text_join hfol.notEmpty hrel, (origin_join hrel).symm ▸ hfol.start⟩
    have hpnul : '\x00' ∉ p.text.toList := by simpa using hfol.noNul
    rw [List.contains_eq_mem, decide_eq_false_iff_not,
      Path.mem_toList_join hfol.notEmpty hrel (by decide), String.toList_ofList]
    exact not_or.mpr ⟨hpnul, hnul⟩
  rw [locate_eq_ok_iff, and_iff_right hjoined, wayTo, ← followLinks_eq_present_iff,
    origin_join hrel, Path.stepsOf_join_segment hfol.notEmpty hs,
    hd.followLinks_append hn (followLinks_steps hp hn)]

end Plain

end Disk

end SuiteGate
