import Mathlib.Data.List.Nodup
import SuiteGate.Glob.Search
import SuiteGate.Proofs.Disk.Plain
import SuiteGate.Proofs.Glob.Patterns
/-!
# The way of a search

A search for the pattern of a path goes along the path, piece by piece, whatever characters are in
it: it comes to a path of the same directory, from which it goes on (`exists_base_of_isDir`).  It
keeps to paths that say where they are (`Named`) or are just `.`, and a piece that is empty makes
no path of the latter.  So a search is lost where a path starts with `.` and goes on with an empty
piece (`searchFrom_of_startsEmpty`).
-/

namespace SuiteGate.Glob

open Shell (Pattern)

section

variable {p q : Path} {s : List Char} {segs : List (List Char)}

/-! ### Paths that say where they are -/

/-- A path is absolute or has a component that is not just `.` -/
def Named (p : Path) : Prop :=
  p.isAbsolute = true ∨ Path.componentsIn p.text.toList ≠ []

theorem Named.isCurrent_eq_false (h : Named p) : isCurrent p = false := by
  have hcurrent : .current ∉ Path.componentsIn p.text.toList := by
    intro hmem
    obtain ⟨s, -, hs⟩ := List.mem_filterMap.mp hmem
    rw [Path.Component.ofSegment] at hs
    split at hs
    · simp at hs
    · split at hs <;> simp at hs
  rw [isCurrent, decide_eq_false_iff_not]
  intro hp
  cases habs : p.isAbsolute with
  | true =>
    rw [Path.components_eq_root_cons habs] at hp
    simp at hp
  | false =>
    have hbody :
        p.segments.filterMap Path.Component.ofSegment = Path.componentsIn p.text.toList := by
      rw [Path.segments, habs, if_neg Bool.false_ne_true]
      rfl
    have hne : Path.componentsIn p.text.toList ≠ [] := h.resolve_left (by simp [habs])
    rw [Path.components, habs, if_neg Bool.false_ne_true, hbody] at hp
    split at hp
    · exact hne (List.cons.inj hp).2
    · exact hcurrent (hp ▸ List.mem_cons_self ..)

theorem Named.join (h : Named p) (hq : q.isAbsolute = false) : Named (p.join q) := by
  rcases h with h | h
  · exact .inl ((Path.isAbsolute_join hq).trans h)
  · refine .inr fun hnil => h ?_
    rw [Path.componentsIn_join hq] at hnil
    exact (List.append_eq_nil_iff.mp hnil).1

theorem named_segment (hidle : ¬ Path.IsIdle s) (hs : '/' ∉ s) : Named ⟨String.ofList s⟩ := by
  obtain ⟨c, hc⟩ := Option.ne_none_iff_exists'.mp (mt Path.ofSegment_eq_none_iff.mp hidle)
  refine .inr ?_
  rw [String.toList_ofList, Path.componentsIn, Text.splitChars_of_not_mem hs,
    List.filterMap_cons_some hc]
  simp

theorem named_name (x : Name) : Named ⟨x.text⟩ := by
  refine .inr ?_
  rw [Path.componentsIn_name]
  simp

theorem entryPath_current (name : String) : entryPath ⟨"."⟩ name = ⟨name⟩ := by
  rw [entryPath, if_pos (by decide)]

theorem Named.entryPath_eq (h : Named p) (name : String) : entryPath p name = p.join ⟨name⟩ := by
  rw [entryPath, h.isCurrent_eq_false, if_neg Bool.false_ne_true]
  rfl

/-- What the search goes on from: a path that says where it is, or the current directory. -/
def IsBase (p : Path) : Prop :=
  Named p ∨ p = ⟨"."⟩

theorem IsBase.named_entryPath (h : IsBase p) (x : Name) : Named (entryPath p x.text) := by
  rcases h with h | rfl
  · rw [h.entryPath_eq, ← Path.ofJoin_singleton x]
    exact h.join (Path.isAbsolute_ofJoin [x])
  · rw [entryPath_current]
    exact named_name x

/-! ### Pieces that can be taken -/

/-- Of some pieces, the first that is not `.` is empty. -/
def StartsEmpty (segs : List (List Char)) : Prop :=
  (segs.dropWhile (· = ['.'])).head? = some []

instance : Decidable (StartsEmpty segs) :=
  inferInstanceAs (Decidable (_ = _))

theorem startsEmpty_cons_iff : StartsEmpty (s :: segs) ↔ s = [] ∨ s = ['.'] ∧ StartsEmpty segs := by
  rw [StartsEmpty, List.dropWhile_cons]
  by_cases hdot : s = ['.']
  · subst hdot
    simp [StartsEmpty]
  · simp [hdot]

/-- From a path the search can take all of some pieces. -/
def Ready (p : Path) (segs : List (List Char)) : Prop :=
  Named p ∨ p = ⟨"."⟩ ∧ ¬ StartsEmpty segs

theorem Ready.isBase (h : Ready p segs) : IsBase p :=
  h.imp_right And.left

/-- The search stays ready when it takes a piece. -/
theorem Ready.entryPath (h : Ready p (s :: segs)) (hs : '/' ∉ s) :
    Ready (entryPath p (String.ofList s)) segs := by
  rcases h with h | ⟨rfl, h⟩
  · rw [h.entryPath_eq]
    exact .inl (h.join (Path.isAbsolute_segment hs))
  · rw [startsEmpty_cons_iff, not_or, not_and] at h
    rw [entryPath_current]
    by_cases hdot : s = ['.']
    · exact .inr ⟨by rw [hdot], h.2 hdot⟩
    · exact .inl (named_segment (not_or.mpr ⟨h.1, hdot⟩) hs)

end

/-! ### Looking up pieces -/

section

variable {d : Disk} {cwd here place next : List Name} {p q base : Path} {n m : Node}
  {s : List Char} {segs : List (List Char)}

/-- **The path of a piece** leads one step further. -/
theorem locate_entryPath_iff (hd : d.Plain) (hready : Ready p (s :: segs))
    (hp : d.locate cwd p true = .ok (here, n)) (hn : n.isDir = true) (hs : '/' ∉ s)
    (hnul : '\x00' ∉ s) :
    d.locate cwd (entryPath p (String.ofList s)) true = .ok (place, m) ↔
      Disk.followLinks d.root true Disk.maxLinks here [Path.Step.ofSegment s] =
        .ok (.present place m) := by
  rcases hready with h | ⟨rfl, h⟩
  · rw [h.entryPath_eq]
    exact hd.locate_join_iff hp hn hs hnul
  · rw [entryPath_current]
    rw [startsEmpty_cons_iff, not_or] at h
    exact Disk.Plain.locate_segment_iff hp hn h.1 hs hnul

/-- The path of an entry leads to it. -/
theorem locate_entryPath_name (hd : d.Plain) (hbase : IsBase p)
    (hp : d.locate cwd p true = .ok (here, n)) {x : Name}
    (hm : d.get? (here ++ [x]) = some m) :
    d.locate cwd (entryPath p x.text) true = .ok (here ++ [x], m) := by
  have hkind : d.kindAt (here ++ [x]) ≠ none := by simp [Disk.kindAt_of_get? hm]
  obtain ⟨-, -, hget, -⟩ := Disk.locate_eq_ok_iff.mp hp
  obtain ⟨n', hn', hdir⟩ := Disk.dirAt_iff.mp (Disk.dirAt_of_append hkind (List.cons_ne_nil x []))
  obtain rfl : n = n' := Option.some.inj (hget.symm.trans hn')
  have hready : Ready p [x.text.toList] := by
    refine hbase.imp_right fun h => ⟨h, ?_⟩
    rw [startsEmpty_cons_iff]
    simp [x.toList_ne_nil, StartsEmpty]
  have hstep : Path.Step.ofSegment x.text.toList = .down x := by
    rw [Path.Step.ofSegment, String.ofList_toList, x.ofString?_text]
  rw [← String.ofList_toList (s := x.text), locate_entryPath_iff hd hready hp hdir x.slash_not_mem
    (hd.noNul _ x hkind), hstep, hd.followLinks_down_iff]
  exact ⟨rfl, hm⟩

/-- The names that the search goes through are those of what stands at the place. -/
theorem sortedNames_eq (hd : d.Plain) (hp : d.locate cwd p true = .ok (here, n)) :
    sortedNames d cwd p = d.namesAt here := by
  have hstat : d.stat cwd p = .ok n := Disk.stat_eq_ok_iff.mpr ⟨here, hp⟩
  obtain ⟨-, -, hget, -⟩ := Disk.locate_eq_ok_iff.mp hp
  rw [sortedNames, Disk.namesAt, hget, Disk.readDir, hstat]
  cases n with
  | file data => simp [Node.entries, bind, Except.bind, throw, throwThe, MonadExceptOf.throw]
  | link target => exact absurd (Disk.kindAt_of_get? hget) (hd.noLink here target)
  | dir access es =>
    obtain ⟨listable, w⟩ := access
    cases listable with
    | false => exact absurd (Disk.kindAt_of_get? hget) (hd.listable here w)
    | true => rfl

/-! ### Going along a path -/

/-- A piece without special characters is taken as it stands, if there is something. -/
theorem searchFrom_plain_cons (hs : s.any isSpecial = false) (more : List Pattern) :
    searchFrom d cwd (exactly s :: more) p =
      if (if s = ['.'] || s = ['.', '.'] then d.isDir cwd p
        else d.pathExists cwd (entryPath p (String.ofList s))) = true then
        searchFrom d cwd more (entryPath p (String.ofList s))
      else [] := by
  rw [searchFrom, plainText?_exactly, hs]
  rfl

/-- **The search takes a piece** if it leads to a directory, whatever characters are in it. -/
theorem searchFrom_exactly_cons (hd : d.Plain) (hready : Ready p (s :: segs))
    (hp : d.locate cwd p true = .ok (here, n)) (hn : n.isDir = true) (hs : '/' ∉ s)
    (hnul : '\x00' ∉ s)
    (hstep : Disk.followLinks d.root true Disk.maxLinks here [Path.Step.ofSegment s] =
      .ok (.present next m)) (more : List Pattern) :
    searchFrom d cwd (exactly s :: more) p =
      searchFrom d cwd more (entryPath p (String.ofList s)) := by
  cases hspecial : s.any isSpecial with
  | false =>
    have hdir : d.isDir cwd p = true := Disk.isDir_iff.mpr ⟨n, Disk.stat_eq_ok_iff.mpr ⟨_, hp⟩, hn⟩
    have hexists : d.pathExists cwd (entryPath p (String.ofList s)) = true :=
      Disk.pathExists_iff.mpr ⟨m, Disk.stat_eq_ok_iff.mpr
        ⟨next, (locate_entryPath_iff hd hready hp hn hs hnul).mpr hstep⟩⟩
    rw [searchFrom_plain_cons hspecial, hdir, hexists, ite_self, if_pos rfl]
  | true =>
    -- a piece with a special character is a name, and the only one that its pattern matches
    obtain ⟨x, rfl⟩ : ∃ x : Name, x.text.toList = s := by
      refine Name.exists_toList_eq ?_ ?_ ?_ hs
      · rintro rfl
        simp at hspecial
      · rintro rfl
        simp [isSpecial] at hspecial
      · rintro rfl
        simp [isSpecial] at hspecial
    rw [Path.Step.ofSegment_name, hd.followLinks_down_iff] at hstep
    obtain ⟨rfl, hm⟩ := hstep
    have hmem : x ∈ d.namesAt here := by
      rw [Disk.mem_namesAt_iff, hm]
      simp
    have hfilter : (d.namesAt here).filter
        (fun y => (exactly x.text.toList).matches? y.text.toList) = [x] := by
      have hmatches : ∀ y : Name, (exactly x.text.toList).matches? y.text.toList = (y == x) := by
        intro y
        rw [Bool.eq_iff_iff, matches?_exactly_iff, String.toList_inj, beq_iff_eq, Name.text_inj]
      simp only [hmatches]
      rw [List.filter_beq, List.count_eq_one_of_mem Disk.nodup_namesAt hmem, List.replicate_one]
    rw [searchFrom, plainText?_exactly, hspecial, if_pos rfl, sortedNames_eq hd hp]
    simp only [hfilter]
    rw [List.flatMap_singleton, String.ofList_toList]

/-- **The search goes along pieces** to a path of the directory that they lead to. -/
theorem exists_base_of_ready (hd : d.Plain) (hready : Ready p segs)
    (hsegs : ∀ s ∈ segs, '/' ∉ s ∧ '\x00' ∉ s) (hp : d.locate cwd p true = .ok (here, n))
    (hn : n.isDir = true) (hm : m.isDir = true)
    (hway : Disk.followLinks d.root true Disk.maxLinks here
      (segs.map Path.Step.ofSegment ++ [.stay]) = .ok (.present place m)) :
    ∃ base, IsBase base ∧ d.locate cwd base true = .ok (place, m) ∧ ∀ more,
      searchFrom d cwd (segs.map exactly ++ more) p = searchFrom d cwd more base := by
  induction segs generalizing p here n with
  | nil =>
    obtain ⟨-, -, hget, -⟩ := Disk.locate_eq_ok_iff.mp hp
    rw [List.map_nil, List.nil_append, Disk.followLinks_stay, Disk.followLinks_nil, hget] at hway
    obtain ⟨rfl, rfl⟩ := Disk.Place.present.inj (Except.ok.inj hway)
    exact ⟨p, hready.isBase, hp, fun more => rfl⟩
  | cons s segs ih =>
    obtain ⟨⟨hs, hnul⟩, hrest⟩ := List.forall_mem_cons.mp hsegs
    obtain ⟨-, -, hget, -⟩ := Disk.locate_eq_ok_iff.mp hp
    have hhere : d.DirAt here := Disk.dirAt_iff.mpr ⟨n, hget, hn⟩
    rw [List.map_cons, List.cons_append, ← List.singleton_append] at hway
    obtain ⟨next, n', k', hstep, hn', -⟩ :=
      Disk.exists_dir_of_followLinks_append (by simp) hhere hway
    rw [hd.followLinks_append hn' hstep] at hway
    have hnext := (locate_entryPath_iff hd hready hp hn hs hnul).mpr hstep
    obtain ⟨base, hbase, hloc, hsearch⟩ := ih (hready.entryPath hs) hrest hnext hn' hway
    refine ⟨base, hbase, hloc, fun more => ?_⟩
    rw [List.map_cons, List.cons_append,
      searchFrom_exactly_cons hd hready hp hn hs hnul hstep, hsearch]

/-- Where the search for a path begins. -/
def start (p : Path) : Path :=
  if p.isAbsolute then ⟨"/"⟩ else ⟨"."⟩

/-- A path leads the way of its pieces. -/
theorem followLinks_segments (hp : d.locate cwd p true = .ok (place, m)) (hm : m.isDir = true) :
    Disk.followLinks d.root true Disk.maxLinks (Disk.origin cwd p)
      (p.segments.map Path.Step.ofSegment ++ [.stay]) = .ok (.present place m) := by
  obtain ⟨hfol, -⟩ := Disk.locate_eq_ok_iff.mp hp
  have hmoves : ∀ segs : List (List Char), Path.moves (segs.map Path.Step.ofSegment) =
      Path.moves ((segs.filter (· ≠ [])).map Path.Step.ofSegment) := by
    intro segs
    induction segs with
    | nil => rfl
    | cons s segs ih =>
      by_cases hnil : s = []
      · -- an empty piece asks to stay
        subst hnil
        exact ih
      · have hcons : ∀ steps, Path.moves (Path.Step.ofSegment s :: steps) =
            Path.moves [Path.Step.ofSegment s] ++ Path.moves steps := Path.moves_append [_]
        rw [List.filter_cons_of_pos (by simpa using hnil), List.map_cons, List.map_cons, hcons, ih,
          ← hcons]
  rw [Disk.followLinks_congr (hmoves p.segments) (List.cons_ne_nil _ [])]
  exact (Disk.followLinks_append_stay hm hfol.start).mpr (Disk.Plain.followLinks_steps hp hm)

/-- The search begins where the path does. -/
theorem locate_start (hp : d.Followable cwd p) :
    ∃ n, n.isDir = true ∧ d.locate cwd (start p) true = .ok (Disk.origin cwd p, n) := by
  obtain ⟨n, hn, hdir⟩ := Disk.dirAt_iff.mp hp.start
  have horigin : Disk.origin cwd (start p) = Disk.origin cwd p := by
    rw [Disk.origin, Disk.origin, start]
    cases p.isAbsolute <;> rfl
  have hsteps : Disk.stepsOf (start p) = [.stay] := by
    rw [start]
    split <;> decide
  have hstart : d.Followable cwd (start p) := by
    refine ⟨?_, ?_, horigin.symm ▸ hp.start⟩
    · rw [start]
      split <;> decide
    · rw [start]
      split <;> decide
  refine ⟨n, hdir, Disk.locate_eq_ok_iff.mpr ⟨hstart, ?_⟩⟩
  rw [Disk.wayTo, ← Disk.followLinks_eq_present_iff, horigin, hsteps, Disk.followLinks_stay,
    Disk.followLinks_nil, hn]

/-- **The search for a path of a directory** comes to a path of that directory, whatever characters
are in it. -/
theorem exists_base_of_isDir (hd : d.Plain) (hp : d.locate cwd p true = .ok (place, m))
    (hm : m.isDir = true) (hready : p.isAbsolute = true ∨ ¬ StartsEmpty p.segments) :
    ∃ base, IsBase base ∧ d.locate cwd base true = .ok (place, m) ∧ ∀ more,
      searchFrom d cwd (p.segments.map exactly ++ more) (start p) =
        searchFrom d cwd more base := by
  obtain ⟨hfol, -⟩ := Disk.locate_eq_ok_iff.mp hp
  obtain ⟨n, hn, hstart⟩ := locate_start hfol
  have hstartReady : Ready (start p) p.segments := by
    rw [start]
    cases habs : p.isAbsolute with
    | true => exact .inl (.inl rfl)
    | false => exact .inr ⟨rfl, hready.resolve_left (by simp [habs])⟩
  refine exists_base_of_ready hd hstartReady (fun s hs => ⟨Path.slash_not_mem_segment hs, ?_⟩)
    hstart hn hm (followLinks_segments hp hm)
  have hnul : '\x00' ∉ p.text.toList := by simpa using hfol.noNul
  exact fun hmem => hnul ((Path.mem_toList_text_iff_segments (by decide)).mpr ⟨s, hs, hmem⟩)

/-- **The search is lost** on pieces that start with `.` and go on with an empty one. -/
theorem searchFrom_of_startsEmpty (h : StartsEmpty segs) (more : List Pattern) :
    searchFrom d cwd (segs.map exactly ++ more) ⟨"."⟩ = [] := by
  induction segs with
  | nil => simp [StartsEmpty] at h
  | cons s segs ih =>
    have hplain : s.any isSpecial = false := by
      rcases startsEmpty_cons_iff.mp h with rfl | ⟨rfl, -⟩ <;> decide
    rw [List.map_cons, List.cons_append, searchFrom_plain_cons hplain, entryPath_current]
    rcases startsEmpty_cons_iff.mp h with rfl | ⟨rfl, hrest⟩
    · -- there is nothing at an empty path
      rfl
    · have hgo : searchFrom d cwd (segs.map exactly ++ more) ⟨String.ofList ['.']⟩ = [] := ih hrest
      rw [hgo, ite_self]

/-! ### Patterns of paths -/

theorem isAbsolute_escape (hq : q.text.isEmpty = false) (rest : List Char) :
    (⟨String.ofList (escape q.text.toList ++ rest)⟩ : Path).isAbsolute = q.isAbsolute := by
  have hne : q.text.toList ≠ [] := by
    rw [ne_eq, String.toList_eq_nil_iff, ← String.isEmpty_iff, hq]
    simp
  obtain ⟨c, cs, hcs⟩ := List.exists_cons_of_ne_nil hne
  have hescape : escape q.text.toList ≠ [] := by
    rw [hcs, escape_cons, escape, List.flatMap_singleton]
    split <;> simp
  rw [Path.isAbsolute, Path.isAbsolute, String.toList_ofList,
    List.head?_append_of_ne_nil _ hescape, decide_eq_decide]
  exact head?_escape_iff

theorem segments_escape (hq : q.text.isEmpty = false) (rest : List Char) :
    (⟨String.ofList (escape q.text.toList ++ '/' :: rest)⟩ : Path).segments =
      q.segments.map escape ++ Text.splitChars '/' rest := by
  rw [Path.segments, isAbsolute_escape hq, Path.segments, String.toList_ofList, ← splitChars_escape,
    ← Text.splitChars_append]
  cases habs : q.isAbsolute with
  | false => rfl
  | true =>
    -- the separator at the start is no special character
    obtain ⟨cs, hcs⟩ : ∃ cs, q.text.toList = '/' :: cs :=
      List.head?_eq_some_iff.mp (by simpa [Path.isAbsolute] using habs)
    rw [hcs]
    rfl

/-- **The pattern of a path, continued,** is searched along the path first. -/
theorem search?_escape (hq : q.text.isEmpty = false) {rest : List Char} {more : List Pattern}
    (hwhole : (read? ('/' :: rest)).isSome = true)
    (hmore : (Text.splitChars '/' rest).mapM read? = some more) :
    search? d cwd ⟨String.ofList (escape q.text.toList ++ '/' :: rest)⟩ =
      some (searchFrom d cwd (q.segments.map exactly ++ more) (start q)) := by
  obtain ⟨whole, hwhole⟩ := Option.isSome_iff_exists.mp hwhole
  rw [search?, segments_escape hq, isAbsolute_escape hq, String.toList_ofList,
    read?_escape_append, hwhole, List.mapM_append, mapM_read?_escape, hmore]
  rfl

end

end SuiteGate.Glob
