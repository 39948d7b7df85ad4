import SuiteGate.Proofs.Disk.Overlays
import SuiteGate.Proofs.Disk.Spellings
/-!
# Landing at a directory

A path lands at a directory if its steps lead there, whatever its end asks for (`Disk.LandsAt`).  It
lands there still as long as what stands on its way is kept (`Disk.Keeps`), and a path continued
with the names of directories lands below (`LandsAt.below`).

Where a path lands, it is settled what becomes of one more name: a directory is made there or found
(`LandsAt.makeDirAll_of_free`, `LandsAt.makeDirAll_of_dirAt`), a file is copied there
(`LandsAt.copyFile_child`), and no directory above is made (`LandsAt.makeParents_child`).
-/

namespace SuiteGate.Disk

/-! ### What is kept -/

/-- What stood stands still, but for files that are others now. -/
def Keeps (d d' : Disk) : Prop :=
  ∀ q, d.kindAt q ≠ none → d'.kindAt q = d.kindAt q ∨ d.FileAt q ∧ d'.FileAt q

section

variable {d d' : Disk} {cwd : List Name} {p : Path} {place : List Name}

theorem Keeps.refl (d : Disk) : d.Keeps d := fun _ _ => .inl rfl

theorem Grows.keeps (h : d.Grows d') : d.Keeps d' := fun q hq =>
  .inl ((h q).resolve_right fun hnew => hq hnew.1)

theorem Keeps.dirAt (h : d.Keeps d') {q : List Name} (hq : d.DirAt q) : d'.DirAt q := by
  obtain ⟨l, hl⟩ := hq
  rcases h q (by simp [hl]) with hsame | ⟨⟨data, hdata⟩, -⟩
  · exact ⟨l, hsame.trans hl⟩
  · cases hdata.symm.trans hl

theorem Keeps.kindAt_ne_none (h : d.Keeps d') {q : List Name} (hq : d.kindAt q ≠ none) :
    d'.kindAt q ≠ none := by
  rcases h q hq with hsame | ⟨-, data, hdata⟩
  · rwa [hsame]
  · simp [hdata]

theorem Keeps.trans {d'' : Disk} (h : d.Keeps d') (h' : d'.Keeps d'') : d.Keeps d'' := by
  intro q hq
  rcases h' q (h.kindAt_ne_none hq) with hsame' | ⟨hfile', hfile''⟩
  · exact (h q hq).imp hsame'.trans fun ⟨hfile, data, hdata⟩ => ⟨hfile, data, hsame'.trans hdata⟩
  · rcases h q hq with hsame | ⟨hfile, -⟩
    · obtain ⟨data, hdata⟩ := hfile'
      exact .inr ⟨⟨data, hsame.symm.trans hdata⟩, hfile''⟩
    · exact .inr ⟨hfile, hfile''⟩

/-- What is put at a free place, or as a file in place of another, leaves all else as it is. -/
theorem keeps_of_put {k : Kind}
    (hkinds : ∀ q, d'.kindAt q = if q = place then some k else d.kindAt q)
    (hbefore : d.kindAt place = none ∨ d.FileAt place ∧ ∃ data, k = .file data) :
    d.Keeps d' := by
  intro q hq
  rw [hkinds]
  split
  · next heq =>
    subst heq
    obtain ⟨hfile, data, rfl⟩ := hbefore.resolve_left hq
    exact .inr ⟨hfile, data, by rw [hkinds, if_pos rfl]⟩
  · exact .inl rfl

/-- A way on which nothing was missing is the same still. -/
theorem Keeps.route_eq (h : d.Keeps d') {final : Bool} {k : ℕ} {here : List Name}
    {steps : List Path.Step} (hmet : ∀ q ∈ (d.route final k here steps).met, d.kindAt q ≠ none) :
    d'.route final k here steps = d.route final k here steps :=
  route_eq_of_alike fun q hq => .inl ((h q (hmet q hq)).imp_right .inr)

theorem Keeps.followLinks (h : d.Keeps d') {final : Bool} {k : ℕ} {here : List Name}
    {steps : List Path.Step} {n m : Node}
    (hf : Disk.followLinks d.root final k here steps = .ok (.present place n))
    (hm : d'.get? place = some m) :
    Disk.followLinks d'.root final k here steps = .ok (.present place m) := by
  obtain ⟨hgoal, -, hmet⟩ := followLinks_eq_present_iff.mp hf
  rw [followLinks_eq_present_iff, h.route_eq hmet]
  exact ⟨hgoal, hm, fun q hq => h.kindAt_ne_none (hmet q hq)⟩

/-- **What a path leads to** it leads to still, if that is as before. -/
theorem Keeps.locate (h : d.Keeps d') {final : Bool} {n m : Node}
    (hl : d.locate cwd p final = .ok (place, n)) (hm : d'.get? place = some m) :
    d'.locate cwd p final = .ok (place, m) := by
  obtain ⟨hfol, hfound⟩ := locate_eq_ok_iff.mp hl
  refine locate_eq_ok_iff.mpr ⟨⟨hfol.noNul, hfol.notEmpty, h.dirAt hfol.start⟩, ?_⟩
  rw [wayTo, ← followLinks_eq_present_iff] at hfound ⊢
  exact h.followLinks hfound hm

end

/-! ### Where a path lands -/

/-- A path lands at a directory: its steps lead there. -/
structure LandsAt (d : Disk) (cwd : List Name) (p : Path) (place : List Name) : Prop where
  noNul : p.text.toList.contains '\x00' = false
  start : d.DirAt (origin cwd p)
  leads : ∃ n, n.isDir = true ∧
    followLinks d.root true maxLinks (origin cwd p) p.steps = .ok (.present place n)

section

variable {d d' : Disk} {cwd : List Name} {p q : Path} {place : List Name} {x : Name}

theorem LandsAt.dirAt (h : d.LandsAt cwd p place) : d.DirAt place := by
  obtain ⟨n, hdir, hleads⟩ := h.leads
  exact dirAt_iff.mpr ⟨n, (followLinks_eq_present_iff.mp hleads).2.1, hdir⟩

theorem landsAt_of_isDir (h : d.isDir cwd p = true) : ∃ place, d.LandsAt cwd p place := by
  obtain ⟨n, hn, hdir⟩ := isDir_iff.mp h
  obtain ⟨place, hl⟩ := stat_eq_ok_iff.mp hn
  obtain ⟨hfol, hgoal, hget, hmet⟩ := locate_eq_ok_iff.mp hl
  refine ⟨place, hfol.noNul, hfol.start, n, hdir, followLinks_eq_present_iff.mpr ?_⟩
  rw [route_steps_of_wayTo hgoal]
  exact ⟨hgoal, hget, hmet⟩

theorem LandsAt.isDir (h : d.LandsAt cwd p place) (hp : p.text.isEmpty = false) :
    d.isDir cwd p = true := by
  obtain ⟨n, hdir, hleads⟩ := h.leads
  obtain ⟨hgoal, hget, hmet⟩ := followLinks_eq_present_iff.mp hleads
  have hway := wayTo_of_route_steps hgoal fun data hdata => by
    obtain ⟨l, hl⟩ := h.dirAt
    cases hdata.symm.trans hl
  exact isDir_iff.mpr ⟨n, stat_eq_ok_iff.mpr ⟨place, locate_eq_ok_iff.mpr
    ⟨⟨h.noNul, hp, h.start⟩, hway ▸ hgoal, hget, hway ▸ hmet⟩⟩, hdir⟩

/-- A path lands where it did when everything on its way was kept. -/
theorem LandsAt.of_keeps (h : d.LandsAt cwd p place) (hk : d.Keeps d') :
    d'.LandsAt cwd p place := by
  obtain ⟨n, hdir, hleads⟩ := h.leads
  obtain ⟨m, hm, hmdir⟩ := dirAt_iff.mp (hk.dirAt h.dirAt)
  exact ⟨h.noNul, hk.dirAt h.start, m, hmdir, hk.followLinks hleads hm⟩

/-- A separator behind a path does not change where it lands. -/
theorem landsAt_join_nil_iff :
    d.LandsAt cwd (p.join (Path.ofJoin [])) place ↔ d.LandsAt cwd p place := by
  have horigin : origin cwd (p.join (Path.ofJoin [])) = origin cwd p :=
    origin_join (Path.isAbsolute_ofJoin _)
  constructor
  · rintro ⟨hnul, hstart, hleads⟩
    rw [Path.contains_nul_join_nil] at hnul
    rw [Path.steps_join_nil, horigin] at hleads
    exact ⟨hnul, horigin ▸ hstart, hleads⟩
  · rintro ⟨hnul, hstart, hleads⟩
    refine ⟨by rw [Path.contains_nul_join_nil, hnul], horigin ▸ hstart, ?_⟩
    rw [Path.steps_join_nil, horigin]
    exact hleads

/-- Where a path lands, a longer look-up goes on. -/
theorem LandsAt.followLinks_child (h : d.LandsAt cwd p place) (x : Name) :
    ∃ k, ∀ final, followLinks d.root final maxLinks (origin cwd (p.child x.text))
      (p.child x.text).steps = followLinks d.root final k place [.down x] := by
  obtain ⟨n, hdir, hleads⟩ := h.leads
  obtain ⟨k, hk⟩ := exists_followLinks_append hleads hdir
  have horigin : origin cwd (p.child x.text) = origin cwd p := by
    rw [Path.child_eq, origin_join (Path.isAbsolute_ofJoin _)]
  refine ⟨k, fun final => ?_⟩
  rw [Path.steps_child, horigin]
  exact hk final _ (List.cons_ne_nil _ [])

theorem LandsAt.followable_child (h : d.LandsAt cwd p place)
    (hx : x.text.toList.contains '\x00' = false) : d.Followable cwd (p.child x.text) := by
  have horigin : origin cwd (p.child x.text) = origin cwd p := by
    rw [Path.child_eq, origin_join (Path.isAbsolute_ofJoin _)]
  refine ⟨?_, Path.isEmpty_text_child p x, horigin ▸ h.start⟩
  rw [Path.contains_nul_child, h.noNul, hx]
  rfl

/-- **Below a directory** a path lands at the directory of a name. -/
theorem LandsAt.child (h : d.LandsAt cwd p place) (hx : x.text.toList.contains '\x00' = false)
    (hdir : d.DirAt (place ++ [x])) : d.LandsAt cwd (p.child x.text) (place ++ [x]) := by
  obtain ⟨k, hk⟩ := h.followLinks_child x
  obtain ⟨n, hn, hndir⟩ := dirAt_iff.mp hdir
  have hfol := h.followable_child hx
  refine ⟨hfol.noNul, hfol.start, n, hndir, ?_⟩
  rw [hk, followLinks_dir hdir, followLinks_nil, hn]

/-- **The names of directories** are where a path lands that is continued with them. -/
theorem LandsAt.below (h : d.LandsAt cwd p place) (names : List Name)
    (hnul : ∀ x ∈ names, x.text.toList.contains '\x00' = false)
    (hdir : d.DirAt (place ++ names)) :
    d.LandsAt cwd (p.join (Path.ofJoin names)) (place ++ names) := by
  induction names using List.reverseRecOn with
  | nil =>
    rw [List.append_nil]
    exact landsAt_join_nil_iff.mpr h
  | append_singleton names x ih =>
    rw [← List.append_assoc] at hdir ⊢
    rw [Path.join_ofJoin_concat]
    have habove : d.DirAt (place ++ names) := by
      obtain ⟨l, hl⟩ := hdir
      exact dirAt_of_append (ne_of_eq_of_ne hl (by simp)) (List.cons_ne_nil x [])
    exact (ih (fun y hy => hnul y (List.mem_append_left _ hy)) habove).child
      (hnul x (by simp)) hdir

/-! ### What is done where a path lands -/

/-- A name that stands for no link is found, or free. -/
theorem followLinks_name_of_not_linkAt {final : Bool} {k : ℕ} {here : List Name}
    (hlink : ¬ d.LinkAt (here ++ [x])) :
    followLinks d.root final k here [.down x] =
      .ok (match d.get? (here ++ [x]) with
        | none => .absent here x
        | some n => .present (here ++ [x]) n) := by
  cases hn : d.get? (here ++ [x]) with
  | none => exact followLinks_missing (kindAt_eq_none_iff.mpr hn)
  | some n =>
    have hk := kindAt_of_get? hn
    cases n with
    | file data => exact followLinks_file hk
    | link target => exact absurd ⟨target, hk⟩ hlink
    | dir l es => rw [followLinks_dir ⟨l, hk⟩, followLinks_nil, hn]

/-- What is found at a name where a path lands. -/
theorem LandsAt.resolveSteps_child (h : d.LandsAt cwd p place)
    (hx : x.text.toList.contains '\x00' = false) (hlink : ¬ d.LinkAt (place ++ [x]))
    (final : Bool) :
    d.resolveSteps cwd (p.child x.text) (p.child x.text).steps final =
      .ok (match d.get? (place ++ [x]) with
        | none => .absent place x
        | some n => .present (place ++ [x]) n) := by
  obtain ⟨k, hk⟩ := h.followLinks_child x
  rw [resolveSteps_eq_ok_iff, hk, followLinks_name_of_not_linkAt hlink]
  exact ⟨h.followable_child hx, rfl⟩

/-- A path continued with a name leads to a directory only under that name, if that is no link. -/
theorem LandsAt.dirAt_child (h : d.LandsAt cwd p place) (hlink : ¬ d.LinkAt (place ++ [x]))
    (hdir : d.isDir cwd (p.child x.text) = true) : d.DirAt (place ++ [x]) := by
  obtain ⟨g, hg⟩ := landsAt_of_isDir hdir
  obtain ⟨n, hndir, hleads⟩ := hg.leads
  obtain ⟨k, hk⟩ := h.followLinks_child x
  rw [hk, followLinks_name_of_not_linkAt hlink, Except.ok.injEq] at hleads
  cases hn : d.get? (place ++ [x]) with
  | none =>
    rw [hn] at hleads
    cases hleads
  | some m =>
    rw [hn] at hleads
    obtain ⟨-, rfl⟩ := Place.present.inj hleads
    exact dirAt_iff.mpr ⟨m, hn, hndir⟩

/-- What leads to a directory is found without following a link at its end. -/
theorem exists_present_of_isDir (h : d.isDir cwd p = true) :
    ∃ place n, d.resolveSteps cwd p p.steps false = .ok (.present place n) := by
  obtain ⟨n, hn, -⟩ := isDir_iff.mp h
  obtain ⟨place, hl⟩ := stat_eq_ok_iff.mp hn
  obtain ⟨hfol, hgoal, hget, hmet⟩ := locate_eq_ok_iff.mp hl
  have hsteps := route_steps_of_wayTo hgoal
  rw [← hsteps] at hgoal hmet
  rcases route_true_or_stopped d maxLinks (origin cwd p) p.steps with
    hsame | ⟨stop, target, hstop, hlink, hsub⟩
  · rw [hsame] at hgoal hmet
    exact ⟨place, n, resolveSteps_eq_ok_iff.mpr
      ⟨hfol, followLinks_eq_present_iff.mpr ⟨hgoal, hget, hmet⟩⟩⟩
  · exact ⟨stop, .link target, resolveSteps_eq_ok_iff.mpr ⟨hfol, followLinks_eq_present_iff.mpr
      ⟨hstop, get?_of_kindAt_link hlink, fun q hq => hmet q (hsub q hq)⟩⟩⟩

theorem makeDir_eq_error {n : Node}
    (h : d.resolveSteps cwd p p.steps false = .ok (.present place n)) :
    d.makeDir cwd p = .error (.os .alreadyExists) := by
  rw [makeDir, h]
  rfl

/-- The levels that are tried are always enough for the first. -/
theorem makeDirAllFrom_of_present {n : ℕ} {m : Node}
    (h : d.resolveSteps cwd p p.steps false = .ok (.present place m)) :
    makeDirAllFrom cwd (n + 1) d p =
      (if d.isDir cwd p then .ok () else .error (.os .alreadyExists), d) := by
  obtain ⟨hfol, -⟩ := resolveSteps_eq_ok_iff.mp h
  rw [makeDirAllFrom, hfol.notEmpty, if_neg Bool.false_ne_true, makeDir_eq_error h]
  rfl

/-- **A directory that is there** is not made. -/
theorem makeDirAll_of_isDir (h : d.isDir cwd p = true) : d.makeDirAll cwd p = (.ok (), d) := by
  obtain ⟨place, n, hn⟩ := exists_present_of_isDir h
  rw [makeDirAll, makeDirAllFrom_of_present hn, if_pos h]

theorem makeDirAll_of_absent
    (h : d.resolveSteps cwd p p.steps false = .ok (.absent place x))
    (hw : d.isWritable place = true) :
    d.makeDirAll cwd p =
      (.ok (), (d.put (place ++ [x]) Node.emptyDir Node.distinct_emptyDir).tick) := by
  obtain ⟨hfol, -⟩ := resolveSteps_eq_ok_iff.mp h
  rw [makeDirAll, makeDirAllFrom, hfol.notEmpty, if_neg Bool.false_ne_true,
    makeDir_eq_ok h hw]

theorem makeDirAll_of_isEmpty (hp : p.text.isEmpty = true) :
    d.makeDirAll cwd p = (.ok (), d) := by
  rw [makeDirAll, makeDirAllFrom, if_pos hp]

/-- Idle steps do not change where a look-up of a directory ends. -/
theorem followLinks_append_idle {k : ℕ} {here : List Name} {steps idle : List Path.Step} {n : Node}
    (hidle : ∀ s ∈ idle, s = .stay) (hdir : n.isDir = true) (hhere : d.DirAt here) :
    followLinks d.root true k here (steps ++ idle) = .ok (.present place n) ↔
      followLinks d.root true k here steps = .ok (.present place n) := by
  induction idle using List.reverseRecOn with
  | nil => rw [List.append_nil]
  | append_singleton idle s ih =>
    obtain rfl := hidle s (by simp)
    rw [← List.append_assoc, followLinks_append_stay hdir hhere,
      ih fun s hs => hidle s (List.mem_append_left _ hs)]

/-- **The directories above a name** are there where a path lands, so none is made. -/
theorem LandsAt.makeParents_child (h : d.LandsAt cwd p place)
    (hx : x.text.toList.contains '\x00' = false) :
    d.makeParents cwd (p.child x.text) = (.ok (), d) := by
  obtain ⟨q, idle, hq, hsteps, hidle⟩ := Path.exists_parent?_child p x
  rw [makeParents, hq]
  by_cases hempty : q.text.isEmpty = true
  · exact makeDirAll_of_isEmpty hempty
  have horigin : origin cwd q = origin cwd p := by
    rw [origin, Path.isAbsolute_parent? hq, ← origin, Path.child_eq,
      origin_join (Path.isAbsolute_ofJoin _)]
  have hnul : q.text.toList.contains '\x00' = false := by
    have hchild := (h.followable_child hx).noNul
    rw [List.contains_eq_mem, decide_eq_false_iff_not] at hchild ⊢
    exact fun hmem => hchild ((Path.toList_text_prefix_of_parent? hq).subset hmem)
  obtain ⟨n, hdir, hleads⟩ := h.leads
  rw [hsteps, followLinks_append_idle hidle hdir h.start] at hleads
  have hlands : d.LandsAt cwd q place := ⟨hnul, horigin ▸ h.start, n, hdir, horigin ▸ hleads⟩
  exact makeDirAll_of_isDir (hlands.isDir (by simpa using hempty))

/-- A directory that is made under a name is all that changes. -/
theorem LandsAt.makeDirAll_of_free (h : d.LandsAt cwd p place)
    (hx : x.text.toList.contains '\x00' = false) (hfree : d.kindAt (place ++ [x]) = none)
    (hw : d.isWritable place = true) :
    ∃ d', d.makeDirAll cwd (p.child x.text) = (.ok (), d') ∧
      ∀ q, d'.kindAt q = if q = place ++ [x] then some (.dir .full) else d.kindAt q := by
  have hr := h.resolveSteps_child hx (by simp [LinkAt, hfree]) false
  rw [kindAt_eq_none_iff.mp hfree] at hr
  refine ⟨_, makeDirAll_of_absent hr hw, fun q => ?_⟩
  rw [kindAt_tick, kindAt_of_makeDir h.dirAt hfree]

theorem LandsAt.makeDirAll_of_dirAt (h : d.LandsAt cwd p place)
    (hx : x.text.toList.contains '\x00' = false) (hdir : d.DirAt (place ++ [x])) :
    d.makeDirAll cwd (p.child x.text) = (.ok (), d) :=
  makeDirAll_of_isDir ((h.child hx hdir).isDir (Path.isEmpty_text_child p x))

/-- **A file is copied** to a name where a path lands, if there is another file, or none and the
directory is writable. -/
theorem LandsAt.copyFile_child (h : d.LandsAt cwd p place)
    (hx : x.text.toList.contains '\x00' = false)
    (hbefore : d.kindAt (place ++ [x]) = none ∧ d.isWritable place = true ∨
      d.FileAt (place ++ [x])) {source : Path}
    {original : List Name} {data : FileData}
    (hsource : d.locate cwd source true = .ok (original, .file data)) :
    ∃ d' data', d.copyFile cwd source (p.child x.text) = .ok d' ∧
      (place ++ [x] ≠ original → data'.bytes = data.bytes) ∧
      ∀ q, d'.kindAt q = if q = place ++ [x] then some (.file data') else d.kindAt q := by
  have hlink : ¬ d.LinkAt (place ++ [x]) := by
    rintro ⟨target, htarget⟩
    rcases hbefore with ⟨hnone, -⟩ | ⟨data, hdata⟩
    · cases hnone.symm.trans htarget
    · cases hdata.symm.trans htarget
  have hnot : ¬ d.DirAt (place ++ [x]) := by
    rintro ⟨l, hl⟩
    rcases hbefore with ⟨hnone, -⟩ | ⟨data, hdata⟩
    · cases hnone.symm.trans hl
    · cases hdata.symm.trans hl
  have hr := h.resolveSteps_child hx hlink true
  have hopen : ∃ executable,
      d.openForWriting cwd (p.child x.text) = .ok (place ++ [x], executable) := by
    rw [openForWriting, hr, Path.hasTrailingSlash_child]
    cases hn : d.get? (place ++ [x]) with
    | none =>
      have hw : d.isWritable place = true := by
        rcases hbefore with ⟨-, hw⟩ | ⟨data, hdata⟩
        · exact hw
        · cases (kindAt_eq_none_iff.mpr hn).symm.trans hdata
      exact ⟨false, by simp [bind, Except.bind, pure, Except.pure, hw]⟩
    | some n =>
      have hk := kindAt_of_get? hn
      cases n with
      | file old => exact ⟨old.executable, rfl⟩
      | link target => exact absurd ⟨target, hk⟩ hlink
      | dir l es => exact absurd ⟨l, hk⟩ hnot
  obtain ⟨executable, hopen⟩ := hopen
  refine ⟨d.putFile (place ++ [x]) (if place ++ [x] = original then ByteArray.empty else data.bytes)
    data.executable, _, ?_, ?_, kindAt_putFile h.dirAt hnot⟩
  · rw [copyFile, hsource]
    simp only [bind, Except.bind, hopen, pure, Except.pure]
  · exact fun hne => if_neg hne

/-- A directory was only made under a free name in a writable directory. -/
theorem LandsAt.isWritable_of_makeDirAll (h : d.LandsAt cwd p place)
    (hx : x.text.toList.contains '\x00' = false) (hfree : d.kindAt (place ++ [x]) = none)
    (hmade : d.makeDirAll cwd (p.child x.text) = (.ok (), d')) : d.isWritable place = true := by
  by_contra hnot
  have hlink : ¬ d.LinkAt (place ++ [x]) := by simp [LinkAt, hfree]
  have hr := h.resolveSteps_child hx hlink false
  rw [kindAt_eq_none_iff.mp hfree] at hr
  have hdir : ¬ d.isDir cwd (p.child x.text) = true := fun hisDir => by
    obtain ⟨l, hl⟩ := h.dirAt_child hlink hisDir
    cases hfree.symm.trans hl
  have hdenied : d.makeDir cwd (p.child x.text) = .error (.os .permissionDenied) := by
    simp [makeDir, hr, bind, Except.bind, hnot, throw, throwThe, MonadExceptOf.throw]
  have hother : (IoError.os .permissionDenied).isNotFound = false := rfl
  simp [makeDirAll, makeDirAllFrom, Path.isEmpty_text_child, hdenied, hother, hdir] at hmade

/-- A file was only copied where there was another file, or none and the directory is writable. -/
theorem LandsAt.before_of_copyFile (h : d.LandsAt cwd p place)
    (hlink : ¬ d.LinkAt (place ++ [x])) {source : Path}
    (hc : d.copyFile cwd source (p.child x.text) = .ok d') :
    d.kindAt (place ++ [x]) = none ∧ d.isWritable place = true ∨ d.FileAt (place ++ [x]) := by
  obtain ⟨original, data, place', executable, -, ho, -⟩ := exists_of_copyFile hc
  obtain ⟨-, -, found, hf, hw⟩ := exists_writable_of_openForWriting ho
  obtain ⟨k, hk⟩ := h.followLinks_child x
  rw [hk, followLinks_name_of_not_linkAt hlink, Except.ok.injEq] at hf
  cases hn : d.get? (place ++ [x]) with
  | none =>
    rw [hn] at hf
    subst hf
    cases hw with
    | absent hwritable hfree => exact .inl ⟨hfree, hwritable⟩
  | some n =>
    rw [hn] at hf
    subst hf
    cases hw with
    | present hdata => exact .inr ⟨_, kindAt_of_get? hdata⟩

end

end SuiteGate.Disk
