import SuiteGate.Proofs.Disk.Spellings
import SuiteGate.Proofs.Text.Occurrences
import SuiteGate.Watch.Filter
/-!
# Filters of suites at different places

A filter sees whole paths, the directory of the suite included.  Whether a path below that directory
is in the repository is a question about the components below it (`startsWith_child_join`), and
whether it has an ending is one about the text below it, as no ending holds a separator.  A part in
front of an ending is looked for in the whole line, though, so it can stand in the directory, too
(`Exclusion.holds_join_iff`).

Together these say which paths below the directory of a suite are excluded
(`Filter.excludes_join_iff`).  The headline is `Filter.excludes_moved_iff`: only a Python file that
is not excluded for its own sake can be excluded at one place and not at another, that is in the
mode `graalVm` when `mx_` stands in one of the two directories and not in the other.
-/

namespace SuiteGate

/-! ### Paths below a directory -/

namespace Path

/-- A component is a name. -/
def Component.isNormal : Component → Bool
  | .normal _ => true
  | _ => false

/-- A path leads to something inside the directory that it starts in: it is not empty, and all its
components are names. -/
def IsBelow (p : Path) : Prop :=
  p.components ≠ [] ∧ ∀ c ∈ p.components, c.isNormal = true

instance : DecidablePred IsBelow := fun _ => inferInstanceAs (Decidable (_ ∧ _))

section

variable {d r : Path}

theorem IsBelow.isAbsolute_eq_false (h : r.IsBelow) : r.isAbsolute = false := by
  by_contra habs
  have hroot := (isAbsolute_iff_mem r).mp (by simpa using habs)
  exact absurd (h.2 .root hroot) (by decide)

theorem IsBelow.components_eq (h : r.IsBelow) : r.components = componentsIn r.text.toList := by
  have hrel := h.isAbsolute_eq_false
  have hbody : r.segments.filterMap Component.ofSegment = componentsIn r.text.toList := by
    rw [segments, hrel, if_neg Bool.false_ne_true, componentsIn]
  have hcurrent : r.segments.head? ≠ some ['.'] := by
    intro hhead
    refine absurd (h.2 .current ?_) (by decide)
    rw [components, hrel, if_neg Bool.false_ne_true, if_pos hhead]
    exact List.mem_cons_self ..
  rw [components, hrel, if_neg Bool.false_ne_true, if_neg hcurrent, hbody]

/-- A joined path is the second part, or that behind a separator. -/
theorem join_cases (hr : r.isAbsolute = false) :
    (d.text = "" ∧ d.join r = r) ∨
      ∃ a, (d.join r).text.toList = a ++ '/' :: r.text.toList ∧
        (d.text.toList = a ∨ d.text.toList = a ++ ['/']) := by
  rw [join, hr, Bool.false_or]
  by_cases hempty : d.text.isEmpty = true
  · exact .inl ⟨String.isEmpty_iff.mp hempty, if_pos hempty⟩
  · right
    rw [if_neg hempty]
    by_cases hlast : d.text.toList.getLast? = some '/'
    · obtain ⟨a, ha⟩ := List.getLast?_eq_some_iff.mp hlast
      rw [if_pos hlast]
      exact ⟨a, by simp [ha], .inr ha⟩
    · rw [if_neg hlast]
      exact ⟨d.text.toList, by simp, .inl rfl⟩

/-- A continued path has the components of both parts. -/
theorem components_join_of_ne (hd : d.text ≠ "") (hr : r.isAbsolute = false) :
    (d.join r).components = d.components ++ componentsIn r.text.toList := by
  cases habs : d.isAbsolute with
  | true => exact components_join habs hr
  | false =>
    have hjoin : (d.join r).isAbsolute = false := (isAbsolute_join hr).trans habs
    have hsegments : ∀ p : Path, p.isAbsolute = false →
        p.segments = Text.splitChars '/' p.text.toList := by
      intro p hp
      rw [segments, hp, if_neg Bool.false_ne_true]
    have hbody : (d.join r).segments.filterMap Component.ofSegment =
        d.segments.filterMap Component.ofSegment ++ componentsIn r.text.toList := by
      rw [hsegments _ hjoin, hsegments _ habs]
      exact componentsIn_join hr
    -- the first segment, which may be a dot, is that of the first part
    have hhead : (d.join r).segments.head? = d.segments.head? := by
      rw [hsegments _ hjoin, hsegments _ habs]
      obtain ⟨hnil, -⟩ | ⟨a, ha, hda⟩ := join_cases (d := d) hr
      · exact absurd hnil hd
      · obtain ⟨s, segs, hs⟩ := List.exists_cons_of_ne_nil (Text.splitChars_ne_nil '/' a)
        rw [ha, Text.splitChars_append, hs]
        rcases hda with rfl | hda
        · rw [hs]; rfl
        · rw [hda, Text.splitChars_append, hs]; rfl
    rw [components, hjoin, if_neg Bool.false_ne_true, hbody, hhead, components, habs,
      if_neg Bool.false_ne_true]
    split
    · rfl
    · rfl

/-- **Whether a path below a directory is in its repository** is not a question about the
directory. -/
theorem startsWith_child_join (hr : r.IsBelow) :
    (d.join r).startsWith (d.child ".git") = r.startsWith ⟨".git"⟩ := by
  have hgit : (⟨".git"⟩ : Path).IsBelow := by decide
  by_cases hd : d.text = ""
  · rw [child, join, join, if_pos (by simp [hd]), if_pos (by simp [hd])]
  · rw [startsWith, startsWith, child, components_join_of_ne hd hgit.isAbsolute_eq_false,
      components_join_of_ne hd hr.isAbsolute_eq_false, ← hgit.components_eq, ← hr.components_eq]
    rw [Bool.eq_iff_iff, List.isPrefixOf_iff_prefix, List.isPrefixOf_iff_prefix,
      List.prefix_append_right_inj]

end

end Path

namespace Watch

/-! ### Sets of paths below a directory -/

namespace Exclusion

section

variable {a b : List Char}

theorem lastLine_append_of_mem (h : '\n' ∈ b) : lastLine (a ++ b) = lastLine b := by
  obtain ⟨u, v, rfl⟩ := List.append_of_mem h
  have hlast : ∀ lines, (lines ++ Text.splitChars '\n' v).getLastD [] =
      (Text.splitChars '\n' v).getLastD [] := by
    intro lines
    rw [List.getLastD_eq_getLast?, List.getLastD_eq_getLast?,
      List.getLast?_append_of_ne_nil _ (Text.splitChars_ne_nil '\n' v)]
  rw [← List.append_assoc, lastLine, lastLine, Text.splitChars_append, Text.splitChars_append,
    hlast, hlast]

theorem lastLine_append_of_not_mem (h : '\n' ∉ b) : lastLine (a ++ b) = lastLine a ++ b := by
  obtain ⟨init, last, ha, hab⟩ := Text.splitChars_append_right h a
  rw [lastLine, lastLine, ha, hab]
  simp

theorem lastLine_of_not_mem (h : '\n' ∉ b) : lastLine b = b := by
  rw [lastLine, Text.splitChars_of_not_mem h]
  rfl

/-- Where a part is looked for in front of an ending, if a separator stands in the text. -/
theorem infix_lastLine_iff {part : List Char} (h : '/' ∉ part) :
    part <:+: lastLine (a ++ '/' :: b) ↔
      part <:+: lastLine b ∨ '\n' ∉ b ∧ part <:+: lastLine a := by
  by_cases hline : '\n' ∈ b
  · rw [← List.singleton_append, ← List.append_assoc, lastLine_append_of_mem hline]
    simp [hline]
  · have hsep : '\n' ∉ '/' :: b := by simpa using hline
    rw [lastLine_append_of_not_mem hsep, Text.infix_append_sep_iff h, lastLine_of_not_mem hline,
      and_iff_right hline, or_comm]

end

/-- What the set is described by holds no separator. -/
def IsPlain : Exclusion → Prop
  | ending e => '/' ∉ e.toList
  | partAndEnding part e => '/' ∉ part.toList ∧ '/' ∉ e.toList

/-- The set holds a path below a directory: the path has the ending, and the part stands before it
in the last line, be that the line of the path or, if it has no other, that of the directory. -/
def HoldsBelow (d r : Path) : Exclusion → Prop
  | ending e => e.toList <:+ r.text.toList
  | partAndEnding part e => ∃ stem, r.text.toList = stem ++ e.toList ∧
      (part.toList <:+: lastLine stem ∨
        '\n' ∉ stem ∧ part.toList <:+: lastLine d.text.toList)

section

variable {s part e : String} {d r : Path}

theorem holds_ending_iff : (ending e).holds s = true ↔ e.toList <:+ s.toList :=
  List.isSuffixOf_iff_suffix

theorem holds_partAndEnding_iff :
    (partAndEnding part e).holds s = true ↔
      ∃ stem, s.toList = stem ++ e.toList ∧ part.toList <:+: lastLine stem := by
  have hstem : ∀ stem, s.toList = stem ++ e.toList →
      s.toList.take (s.length - e.length) = stem := by
    intro stem hs
    have hlength : s.length - e.length = stem.length := by
      rw [← String.length_toList, ← String.length_toList, hs, List.length_append,
        Nat.add_sub_cancel]
    rw [hlength, hs, List.take_left]
  rw [holds, Bool.and_eq_true, Text.occursIn_iff, Text.endsWith, List.isSuffixOf_iff_suffix]
  constructor
  · rintro ⟨⟨stem, hs⟩, hpart⟩
    rw [hstem stem hs.symm] at hpart
    exact ⟨stem, hs.symm, hpart⟩
  · rintro ⟨stem, hs, hpart⟩
    rw [hstem stem hs]
    exact ⟨⟨stem, hs.symm⟩, hpart⟩

/-- **Which paths below a directory a set holds.** -/
theorem holds_join_iff {x : Exclusion} (hx : x.IsPlain) (hr : r.isAbsolute = false) :
    x.holds (d.join r).text = true ↔ x.HoldsBelow d r := by
  cases x with
  | ending e =>
    rw [holds_ending_iff, HoldsBelow]
    obtain ⟨-, hjoin⟩ | ⟨a, ha, -⟩ := Path.join_cases (d := d) hr
    · rw [hjoin]
    · rw [ha, Text.suffix_append_sep_iff hx]
  | partAndEnding part e =>
    obtain ⟨hpart, he⟩ := hx
    rw [holds_partAndEnding_iff, HoldsBelow]
    obtain ⟨hd, hjoin⟩ | ⟨a, ha, hda⟩ := Path.join_cases (d := d) hr
    · -- in a directory without a text there stands nothing but the empty part
      refine exists_congr fun stem => ?_
      rw [hjoin, hd]
      refine and_congr_right fun _ => (or_iff_left_of_imp ?_).symm
      exact fun ⟨_, hnil⟩ => hnil.trans List.nil_infix
    · have hdir : part.toList <:+: lastLine d.text.toList ↔ part.toList <:+: lastLine a := by
        rcases hda with hda | hda
        · rw [hda]
        · -- nothing stands behind the separator at the end
          rw [hda, infix_lastLine_iff hpart, lastLine_of_not_mem List.not_mem_nil,
            and_iff_right List.not_mem_nil]
          exact or_iff_right_of_imp fun hnil => hnil.trans List.nil_infix
      have hstem : ∀ stem', a ++ '/' :: r.text.toList = stem' ++ e.toList ↔
          ∃ stem, r.text.toList = stem ++ e.toList ∧ stem' = a ++ '/' :: stem := by
        intro stem'
        constructor
        · intro h
          obtain ⟨stem, hstem⟩ := (Text.suffix_append_sep_iff (a := a) he).mp ⟨stem', h.symm⟩
          refine ⟨stem, hstem.symm, List.append_cancel_right (h.symm.trans ?_)⟩
          rw [← hstem, List.append_assoc, List.cons_append]
        · rintro ⟨stem, hstem, rfl⟩
          rw [hstem, List.append_assoc, List.cons_append]
      simp only [ha, hstem, hdir, ← infix_lastLine_iff hpart]
      grind

end

end Exclusion

theorem Mode.isPlain_of_mem {m : Mode} {x : Exclusion} (h : x ∈ m.exclusions) : x.IsPlain := by
  cases m with
  | full =>
    obtain rfl := List.mem_singleton.mp h
    exact (by decide : '/' ∉ ".py".toList)
  | graalVm =>
    obtain rfl := List.mem_singleton.mp h
    exact (by decide : '/' ∉ "mx_".toList ∧ '/' ∉ ".py".toList)
  | noJava =>
    rcases List.mem_pair.mp h with rfl | rfl
    · exact (by decide : '/' ∉ ".py".toList)
    · exact (by decide : '/' ∉ ".java".toList)

/-! ### Filters of one mode -/

/-- **Which paths below the directory of a suite are excluded:** those in the repository and those
that a set of the mode holds. -/
theorem Filter.excludes_join_iff (f : Filter) {r : Path} (hr : r.IsBelow) :
    f.excludes (f.suiteDir.join r) = true ↔
      r.startsWith ⟨".git"⟩ = true ∨ ∃ x ∈ f.mode.exclusions, x.HoldsBelow f.suiteDir r := by
  rw [excludes, Bool.or_eq_true, Path.startsWith_child_join hr, List.any_eq_true]
  refine or_congr_right (exists_congr fun x => and_congr_right fun hx => ?_)
  exact Exclusion.holds_join_iff (Mode.isPlain_of_mem hx) hr.isAbsolute_eq_false

/-- A mode leaves it to the directory of the suite whether a path below it is excluded: the path is
a Python file outside the repository and without the part `mx_`. -/
structure Mode.LeavesToDirectory (m : Mode) (r : Path) : Prop where
  mode : m = .graalVm
  outside : r.startsWith ⟨".git"⟩ = false
  unmarked : ∃ stem, r.text.toList = stem ++ ".py".toList ∧ '\n' ∉ stem ∧
    ¬ "mx_".toList <:+: stem

/-- The part `mx_` stands in the last line of the directory of the suite. -/
def Filter.IsMarked (f : Filter) : Prop :=
  "mx_".toList <:+: Exclusion.lastLine f.suiteDir.text.toList

instance : DecidablePred Filter.IsMarked := fun _ => inferInstanceAs (Decidable (_ <:+: _))

theorem Filter.excludes_iff_isMarked {f : Filter} {r : Path} (hr : r.IsBelow)
    (h : f.mode.LeavesToDirectory r) :
    f.excludes (f.suiteDir.join r) = true ↔ f.IsMarked := by
  obtain ⟨hmode, hgit, stem, hstem, hline, hpart⟩ := h
  rw [f.excludes_join_iff hr, hmode, hgit]
  have hunique : ∀ stem', r.text.toList = stem' ++ ".py".toList ↔ stem' = stem := by
    intro stem'
    rw [hstem, List.append_left_inj, eq_comm]
  have hown : ¬ "mx_".toList <:+: Exclusion.lastLine stem := by
    rwa [Exclusion.lastLine_of_not_mem hline]
  simp only [Mode.exclusions, List.mem_singleton, exists_eq_left, Exclusion.HoldsBelow, hunique,
    hown, hline, not_false_eq_true, true_and, false_or, Bool.false_eq_true]
  rfl

/-- A path that is excluded at one place, and for which the directory does not count, is excluded at
any other. -/
theorem Filter.excludes_of_not_leavesToDirectory {f g : Filter} {r : Path}
    (hmode : f.mode = g.mode) (hr : r.IsBelow) (h : ¬ f.mode.LeavesToDirectory r)
    (hf : f.excludes (f.suiteDir.join r) = true) : g.excludes (g.suiteDir.join r) = true := by
  rw [f.excludes_join_iff hr] at hf
  rw [g.excludes_join_iff hr, ← hmode]
  by_cases hgit : r.startsWith ⟨".git"⟩ = true
  · exact .inl hgit
  · obtain ⟨x, hx, hholds⟩ := hf.resolve_left hgit
    refine .inr ⟨x, hx, ?_⟩
    cases x with
    | ending e => exact hholds
    | partAndEnding part e =>
      obtain ⟨stem, hstem, hpart | ⟨hline, hpart⟩⟩ := hholds
      · exact ⟨stem, hstem, .inl hpart⟩
      · -- the part stands in the path itself, or else the directory would count
        have hgraal : f.mode = .graalVm ∧ part = "mx_" ∧ e = ".py" := by
          cases hm : f.mode with
          | full => simp [hm, Mode.exclusions] at hx
          | graalVm => simpa [hm, Mode.exclusions] using hx
          | noJava => simp [hm, Mode.exclusions] at hx
        obtain ⟨hm, rfl, rfl⟩ := hgraal
        by_cases hown : "mx_".toList <:+: stem
        · exact ⟨stem, hstem, .inl (by rwa [Exclusion.lastLine_of_not_mem hline])⟩
        · exact absurd ⟨hm, by simpa using hgit, stem, hstem, hline, hown⟩ h

/-- **When the place of a suite counts.**  Two filters of one mode exclude the same path below their
suites, but for the Python files that are not excluded for their own sake: of these the mode
`graalVm` excludes all if `mx_` stands in the last line of the directory of the suite, and none if
it does not. -/
theorem Filter.excludes_moved_iff {f g : Filter} {r : Path} (hmode : f.mode = g.mode)
    (hr : r.IsBelow) :
    f.excludes (f.suiteDir.join r) = g.excludes (g.suiteDir.join r) ↔
      (f.mode.LeavesToDirectory r → (f.IsMarked ↔ g.IsMarked)) := by
  by_cases h : f.mode.LeavesToDirectory r
  · have hf := Filter.excludes_iff_isMarked hr h
    have hg := Filter.excludes_iff_isMarked hr (hmode ▸ h)
    rw [forall_prop_of_true h, ← hf, ← hg, Bool.eq_iff_iff]
  · have hto := Filter.excludes_of_not_leavesToDirectory hmode hr h
    have hback := Filter.excludes_of_not_leavesToDirectory hmode.symm hr (hmode ▸ h)
    simp only [h, false_implies, iff_true]
    exact Bool.eq_iff_iff.mpr ⟨hto, hback⟩

/-- A suite in a directory with `mx_`, and one in a directory without. -/
def markedFilter : Filter := ⟨.graalVm, ⟨"/mx_work/suite"⟩, [".c"]⟩
@[inherit_doc markedFilter]
def plainFilter : Filter := ⟨.graalVm, ⟨"/suite"⟩, [".c"]⟩

/-- **A Python file is excluded at one place and not at another.** -/
theorem Filter.excludes_moved :
    (⟨"lib/os.py"⟩ : Path).IsBelow ∧ markedFilter.mode = plainFilter.mode ∧
      markedFilter.excludes (markedFilter.suiteDir.join ⟨"lib/os.py"⟩) = true ∧
      plainFilter.excludes (plainFilter.suiteDir.join ⟨"lib/os.py"⟩) = false := by
  decide

/-- The directory counts for a Python file, and not for a file of the build tool. -/
theorem Filter.excludes_moved_iff_small :
    markedFilter.mode = plainFilter.mode ∧ (⟨"lib/os.py"⟩ : Path).IsBelow ∧
      (⟨"a/mx_b.py"⟩ : Path).IsBelow ∧
      markedFilter.excludes (markedFilter.suiteDir.join ⟨"lib/os.py"⟩) ≠
        plainFilter.excludes (plainFilter.suiteDir.join ⟨"lib/os.py"⟩) ∧
      markedFilter.excludes (markedFilter.suiteDir.join ⟨"a/mx_b.py"⟩) =
        plainFilter.excludes (plainFilter.suiteDir.join ⟨"a/mx_b.py"⟩) := by
  have hmode : markedFilter.mode = plainFilter.mode := rfl
  have hlib : (⟨"lib/os.py"⟩ : Path).IsBelow := by decide
  have htool : (⟨"a/mx_b.py"⟩ : Path).IsBelow := by decide
  refine ⟨hmode, hlib, htool, fun hsame => ?_, (Filter.excludes_moved_iff hmode htool).mpr ?_⟩
  · have hleft : markedFilter.mode.LeavesToDirectory ⟨"lib/os.py"⟩ :=
      ⟨rfl, by decide, "lib/os".toList, by decide, by decide, by decide⟩
    have hmarked : markedFilter.IsMarked ∧ ¬ plainFilter.IsMarked := by decide
    exact hmarked.2 (((Filter.excludes_moved_iff hmode hlib).mp hsame hleft).mp hmarked.1)
  · rintro ⟨-, -, stem, hstem, -, hpart⟩
    obtain rfl : "a/mx_b".toList = stem := List.append_cancel_right (hstem : _ ++ _ = _)
    exact absurd (by decide) hpart

end Watch

end SuiteGate
