import SuiteGate.Proofs.Disk.Confined
/-!
# Copies from outside of a directory

A path that leads outside of a directory, and neither through the tree that is removed there nor
through anything that is not there yet (`Disk.Outside`), leads to the same things while the
directory changes (`Outside.locate_iff`).  The same goes for the paths of all that is reached from
it (`Fixed.below`).  The file that a path leads to stays the same if the path leads by nothing in
the directory (`Disk.Clear`, `Clear.steady`).

So what is copied from there into the directory is a copy of what was there in the beginning
(`Disk.Copied`).  The headlines are `Confined.copyTree`, that a copied tree has a copy of every
file, and `Confined.copied_of_copyFile`.
-/

namespace SuiteGate.Disk

section

variable {base d d' : Disk} {cwd home names : List Name} {dir : Path} {x : Name}

/-! ### Outside of the directory -/

/-- A path leads outside of a directory.  Where it leads through the directory there is something,
and not in the tree of a certain name. -/
structure Outside (d : Disk) (cwd home : List Name) (x : Name) (p : Path) : Prop where
  apart : ∀ place ∈ (d.wayTo cwd true p).goal, Apart home place
  clear : ∀ q ∈ d.trail cwd true p, home <+: q → d.kindAt q ≠ none ∧ ¬ home ++ [x] <+: q

instance (d : Disk) (cwd home : List Name) (x : Name) (p : Path) :
    Decidable (d.Outside cwd home x p) :=
  decidable_of_iff ((∀ place ∈ (d.wayTo cwd true p).goal, Apart home place) ∧
      ∀ q ∈ d.trail cwd true p, home <+: q → d.kindAt q ≠ none ∧ ¬ home ++ [x] <+: q)
    ⟨fun h => ⟨h.1, h.2⟩, fun h => ⟨h.1, h.2⟩⟩

namespace Outside

variable {p : Path}

/-- What such a path comes by stays what it is. -/
theorem same_sort (hp : base.Outside cwd home x p)
    (h : base.Confined cwd dir home x d) {q : List Name} (hq : q ∈ base.trail cwd true p) :
    d.kindAt q = base.kindAt q ∨ base.DirAt q ∧ d.DirAt q ∨ base.FileAt q ∧ d.FileAt q := by
  by_cases hin : home <+: q
  · obtain ⟨hsome, hclear⟩ := hp.clear q hq hin
    rcases hk : base.kindAt q with - | data | target | l
    · exact absurd hk hsome
    · exact .inr (.inr ⟨⟨data, hk⟩, h.fileAt q hclear ⟨data, hk⟩⟩)
    · exact absurd hk (h.grounds.noLink q target hin)
    · exact .inr (.inl ⟨⟨l, hk⟩, h.dirAt q hclear ⟨l, hk⟩⟩)
  · exact .inl (h.outside q fun hin' => absurd hin' hin)

theorem wayTo_eq (hp : base.Outside cwd home x p)
    (h : base.Confined cwd dir home x d) (final : Bool) :
    d.wayTo cwd final p = base.wayTo cwd final p := by
  refine route_eq_of_alike fun q hq => .inl ?_
  have hmet := met_wayTo_subset base cwd p final hq
  rcases hp.same_sort h (mem_trail_of_met hmet) with hsame | ⟨hdir, hdir'⟩ | hfiles
  · exact .inl hsame
  · exact .inr (.inl ⟨.inr hdir, .inr hdir'⟩)
  · exact .inr (.inr hfiles)

/-- **A path that leads outside** leads to the same thing all the time. -/
theorem locate_iff (hp : base.Outside cwd home x p)
    (h : base.Confined cwd dir home x d) {final : Bool} {place : List Name} {n : Node} :
    d.locate cwd p final = .ok (place, n) ↔ base.locate cwd p final = .ok (place, n) := by
  have hway := hp.wayTo_eq h final
  have hnone : ∀ q ∈ (base.wayTo cwd final p).met, d.kindAt q = none ↔ base.kindAt q = none := by
    intro q hq
    rcases hp.same_sort h (mem_trail_of_met (met_wayTo_subset base cwd p final hq)) with
      hsame | ⟨⟨l, hl⟩, l', hl'⟩ | ⟨⟨data, hdata⟩, data', hdata'⟩
    · rw [hsame]
    · simp [hl, hl']
    · simp [hdata, hdata']
  have hstart : d.DirAt (origin cwd p) ↔ base.DirAt (origin cwd p) := by
    rcases hp.same_sort h (List.mem_cons_self ..) with
      hsame | ⟨hdir, hdir'⟩ | ⟨⟨data, hdata⟩, data', hdata'⟩
    · rw [DirAt, DirAt, hsame]
    · exact iff_of_true hdir' hdir
    · simp [DirAt, hdata, hdata']
  have hget : (base.wayTo cwd final p).goal = some place → d.get? place = base.get? place := by
    have hends : (base.wayTo cwd true p).goal = some place → d.get? place = base.get? place :=
      fun hgoal => h.apart place (hp.apart place hgoal)
    cases final with
    | true => exact hends
    | false =>
      have hor : base.wayTo cwd true p = base.wayTo cwd false p ∨ _ :=
        route_true_or_stopped base maxLinks (origin cwd p) (stepsOf p)
      rcases hor with hsame | ⟨stop, target, hstop, hlink, -⟩
      · rwa [hsame] at hends
      · -- the way stops at a link, and there is none in the directory
        intro hgoal
        obtain rfl : place = stop := Option.some.inj (hgoal.symm.trans hstop)
        have hlink' := h.outside place fun hin => absurd hlink (h.grounds.noLink place target hin)
        rw [hlink] at hlink'
        exact (get?_of_kindAt_link hlink').trans (get?_of_kindAt_link hlink).symm
  have hfol : d.Followable cwd p ↔ base.Followable cwd p :=
    ⟨fun hf => ⟨hf.noNul, hf.notEmpty, hstart.mp hf.start⟩,
      fun hf => ⟨hf.noNul, hf.notEmpty, hstart.mpr hf.start⟩⟩
  rw [locate_eq_ok_iff, locate_eq_ok_iff, hway, hfol]
  refine and_congr_right fun _ => and_congr_right fun hgoal => ?_
  rw [hget hgoal]
  exact and_congr_right fun _ => forall₂_congr fun q hq => not_congr (hnone q hq)

end Outside

/-- A path leads to the same thing, apart from the directory, all the time. -/
structure Fixed (base : Disk) (cwd : List Name) (dir : Path) (home : List Name) (x : Name)
    (p : Path) : Prop where
  apart : ∀ place n, base.locate cwd p true = .ok (place, n) → Apart home place
  locate_iff : ∀ d, base.Confined cwd dir home x d → ∀ place n,
    d.locate cwd p true = .ok (place, n) ↔ base.locate cwd p true = .ok (place, n)

theorem Outside.fixed {p : Path} (hp : base.Outside cwd home x p) :
    base.Fixed cwd dir home x p where
  apart place n hl := by
    obtain ⟨-, hgoal, -⟩ := locate_eq_ok_iff.mp hl
    exact hp.apart place hgoal
  locate_iff _ h _ _ := hp.locate_iff h

namespace Fixed

variable {p : Path}

theorem reaches_iff (hp : base.Fixed cwd dir home x p) (h : base.Confined cwd dir home x d)
    {rel : List Name} {n : Node} : d.Reaches cwd p rel n ↔ base.Reaches cwd p rel n := by
  simp only [Reaches, stat_eq_ok_iff, hp.locate_iff d h]

/-- **The paths of what is reached** from such a path are such paths, too. -/
theorem below (hp : base.Fixed cwd dir home x p) (hg : base.Grounds cwd dir home)
    {rel : List Name} {n : Node} (hr : base.Reaches cwd p rel n) (hlink : n.isLink = false) :
    base.Fixed cwd dir home x (p.below rel) := by
  obtain ⟨place, top, hl, hholds, -⟩ := hr.exists_place
  have hbase : ∀ {d}, base.Confined cwd dir home x d → '\x00' ∉ (p.below rel).text.toList →
      d.locate cwd (p.below rel) true = .ok (place ++ rel, n) := fun {d} h hnul =>
    locate_below ((hp.locate_iff d h place top).mpr hl) hholds hlink hnul
  -- with a NUL in a name, the path leads nowhere in any disk
  have hnul : ∀ {d : Disk} {q m}, d.locate cwd (p.below rel) true = .ok (q, m) →
      '\x00' ∉ (p.below rel).text.toList := by
    intro d q m hq
    obtain ⟨hfol, -⟩ := locate_eq_ok_iff.mp hq
    simpa using hfol.noNul
  have hsame : ∀ {d d'}, base.Confined cwd dir home x d → base.Confined cwd dir home x d' →
      ∀ {q m}, d.locate cwd (p.below rel) true = .ok (q, m) →
        d'.locate cwd (p.below rel) true = .ok (q, m) := by
    intro d d' h h' q m hq
    rw [← hq, hbase h (hnul hq), hbase h' (hnul hq)]
  refine ⟨fun q m hq => ?_, fun d h q m => ⟨hsame h hg.confined, hsame hg.confined h⟩⟩
  obtain ⟨rfl, -⟩ := Prod.mk.inj (Except.ok.inj ((hbase hg.confined (hnul hq)).symm.trans hq))
  have happart := (hp.apart place top hl).append [] rel
  rwa [List.append_nil] at happart

end Fixed

/-- The file that a path leads to while the directory changes is the one that it led to in the
beginning, outside of the directory. -/
structure Steady (base : Disk) (cwd : List Name) (dir : Path) (home : List Name) (x : Name)
    (p : Path) : Prop where
  outside : ∀ place data, base.locate cwd p true = .ok (place, .file data) → ¬ home <+: place
  locate_iff : ∀ d, base.Confined cwd dir home x d → ∀ place data,
    d.locate cwd p true = .ok (place, .file data) ↔
      base.locate cwd p true = .ok (place, .file data)

theorem Fixed.steady {p : Path} (hp : base.Fixed cwd dir home x p) :
    base.Steady cwd dir home x p where
  outside place _ hl := (hp.apart place _ hl).1
  locate_iff d h place _ := hp.locate_iff d h place _

theorem Steady.readFile_iff {p : Path} (hp : base.Steady cwd dir home x p)
    (h : base.Confined cwd dir home x d) {bytes : ByteArray} :
    d.readFile cwd p = .ok bytes ↔ base.readFile cwd p = .ok bytes := by
  simp only [readFile_eq_ok_iff, hp.locate_iff d h]

/-- A path leads by nothing in the tree at a place. -/
def Clear (d : Disk) (cwd home : List Name) (p : Path) : Prop :=
  ∀ q ∈ d.trail cwd true p, ¬ home <+: q

instance (d : Disk) (cwd home : List Name) (p : Path) : Decidable (d.Clear cwd home p) :=
  inferInstanceAs (Decidable (∀ q ∈ d.trail cwd true p, ¬ home <+: q))

namespace Clear

variable {p : Path}

theorem of_alike (hp : d.Clear cwd home p) (hsame : ∀ q, ¬ home <+: q → d.Alike d' q) :
    d'.wayTo cwd true p = d.wayTo cwd true p ∧ d'.Clear cwd home p := by
  have hway : d'.wayTo cwd true p = d.wayTo cwd true p :=
    route_eq_of_alike fun q hq => .inl (hsame q (hp q (mem_trail_of_met hq)))
  refine ⟨hway, ?_⟩
  rw [Clear, trail, hway]
  exact hp

/-- **What such a path leads to** it leads to when something is made anew in the tree. -/
theorem locate (hp : d.Clear cwd home p)
    (hsame : ∀ q, ¬ home <+: q → d.kindAt q ≠ none → d'.kindAt q = d.kindAt q) {final : Bool}
    {place : List Name} {n : Node} (hl : d.locate cwd p final = .ok (place, n))
    (hn : d'.get? place = some n) : d'.locate cwd p final = .ok (place, n) := by
  obtain ⟨hfol, hgoal, -, hmet⟩ := locate_eq_ok_iff.mp hl
  have hkept : ∀ q ∈ (d.wayTo cwd final p).met, d'.kindAt q = d.kindAt q := fun q hq =>
    hsame q (hp q (mem_trail_of_met (met_wayTo_subset d cwd p final hq))) (hmet q hq)
  have hway : d'.wayTo cwd final p = d.wayTo cwd final p :=
    route_eq_of_alike fun q hq => .inl (.inl (hkept q hq))
  obtain ⟨l, hstart⟩ := hfol.start
  refine locate_eq_ok_iff.mpr ⟨⟨hfol.noNul, hfol.notEmpty, l, ?_⟩, hway ▸ hgoal, hn, fun q hq => ?_⟩
  · rw [hsame _ (hp _ (List.mem_cons_self ..)) (by simp [hstart]), hstart]
  · rw [hway] at hq
    rw [hkept q hq]
    exact hmet q hq

theorem locate_file (hp : d.Clear cwd home p)
    (hsame : ∀ q, ¬ home <+: q → d.kindAt q ≠ none → d'.kindAt q = d.kindAt q)
    {place : List Name} {data : FileData} (hl : d.locate cwd p true = .ok (place, .file data)) :
    d'.locate cwd p true = .ok (place, .file data) := by
  obtain ⟨-, hgoal, hget, -⟩ := locate_eq_ok_iff.mp hl
  have hfile := kindAt_of_get? hget
  obtain ⟨n, hn, hk⟩ := kindAt_eq_some_iff.mp
    ((hsame place (hp place (mem_trail_of_goal hgoal)) (by simp [hfile])).trans hfile)
  exact hp.locate hsame hl (Node.kind_eq_file_iff.mp hk ▸ hn)

theorem steady (hp : base.Clear cwd home p) : base.Steady cwd dir home x p where
  outside place data hl := by
    obtain ⟨-, hgoal, -⟩ := locate_eq_ok_iff.mp hl
    exact hp place (mem_trail_of_goal hgoal)
  locate_iff d h place data := by
    have hsame : ∀ q, ¬ home <+: q → d.kindAt q = base.kindAt q := fun q hq =>
      h.outside q fun hin => absurd hin hq
    obtain ⟨-, hp'⟩ := hp.of_alike fun q hq => .inl (hsame q hq)
    exact ⟨hp'.locate_file fun q hq _ => (hsame q hq).symm,
      hp.locate_file fun q hq _ => hsame q hq⟩

end Clear

/-! ### Copies -/

/-- At a place there is a file with the contents that a path led to in the base. -/
def CopyAt (base : Disk) (cwd : List Name) (source : Path) (place : List Name) (d : Disk) : Prop :=
  ∃ data, base.readFile cwd source = .ok data.bytes ∧ d.kindAt place = some (.file data)

/-- A path leads to a copy of what another led to in the base. -/
structure Copied (base : Disk) (cwd : List Name) (source target : Path) (place : List Name)
    (d : Disk) : Prop where
  leads : d.LeadsToFile cwd target place
  copy : base.CopyAt cwd source place d

namespace CopyAt

variable {source : Path} {place place' : List Name}

theorem grows (h : base.CopyAt cwd source place d) (hg : d.Grows d') :
    base.CopyAt cwd source place d' := by
  obtain ⟨data, hread, hdata⟩ := h
  refine ⟨data, hread, ?_⟩
  rcases hg place with hsame | ⟨hnone, -⟩
  · exact hsame.trans hdata
  · simp [hdata] at hnone

/-- A copy is still there after another file was written. -/
theorem written (h : base.CopyAt cwd source place d) (hw : d.Written place' d')
    (hne : place ≠ place') : base.CopyAt cwd source place d' := by
  obtain ⟨data, hread, hdata⟩ := h
  exact ⟨data, hread, (hw.elsewhere place hne).trans hdata⟩

end CopyAt

namespace Copied

variable {source target : Path} {place place' : List Name}

theorem grows (h : base.Copied cwd source target place d) (hg : d.Grows d') :
    base.Copied cwd source target place d' :=
  ⟨h.leads.grows hg, h.copy.grows hg⟩

theorem written (h : base.Copied cwd source target place d) (hw : d.Written place' d')
    (hne : place ≠ place') : base.Copied cwd source target place d' :=
  ⟨hw.leadsToFile h.leads, h.copy.written hw hne⟩

/-- **A copy reads like the original.** -/
theorem readFile_eq (h : base.Copied cwd source target place d) :
    ∃ bytes, d.readFile cwd target = .ok bytes ∧ base.readFile cwd source = .ok bytes := by
  obtain ⟨⟨data, hl⟩, data', hread, hdata⟩ := h
  obtain ⟨-, -, hget, -⟩ := locate_eq_ok_iff.mp hl
  obtain rfl : data = data' := by
    simpa [kindAt_of_get? hget, Node.kind] using hdata
  exact ⟨data.bytes, readFile_eq_ok_iff.mpr ⟨place, data, hl, rfl⟩, hread⟩

end Copied

/-- What some names below a path led to is copied to the same names below another. -/
def CopiedBelow (base : Disk) (cwd : List Name) (source target : Path) (home names : List Name)
    (rel : List Name) (d : Disk) : Prop :=
  base.Copied cwd (source.below rel) (target.join (Path.ofJoin rel)) (home ++ (names ++ rel)) d

namespace Confined

/-- **A file that is copied into the directory** from outside is a copy. -/
theorem copied_of_copyFile (h : base.Confined cwd dir home x d) {source p : Path}
    (hsource : base.Steady cwd dir home x source) (hp : Continues cwd dir p names)
    (hne : names ≠ []) (hc : d.copyFile cwd source p = .ok d') :
    base.Confined cwd dir home x d' ∧ d.Written (home ++ names) d' ∧
      base.Copied cwd source p (home ++ names) d' := by
  obtain ⟨h', hwritten, hleads, original, data, hl, hcontents⟩ := h.of_copyFile hp hne hc
  have hbase := (hsource.locate_iff d h original _).mp hl
  obtain ⟨data', hdata', hbytes⟩ := hcontents (hsource.outside original _ hbase)
  exact ⟨h', hwritten, hleads, data', readFile_eq_ok_iff.mpr ⟨original, data, hbase, hbytes.symm⟩,
    hdata'⟩

section

variable {source target : Path}

/-- What becomes of the copies of a tree when one more item is copied. -/
theorem copyItem (h : base.Confined cwd dir home x d) (ht : Continues cwd dir target names)
    {item : WalkItem} (hitem : item.path = source.below item.below) {b : Bool}
    (hc : d.copyItem cwd target item = (.ok b, d')) :
    base.Confined cwd dir home x d' ∧
      ∀ rel, base.Steady cwd dir home x (source.below rel) →
        base.CopiedBelow cwd source target home names rel d ∨
            item.below = rel ∧ item.node.isDir = false →
          base.CopiedBelow cwd source target home names rel d' := by
  have hplace : Continues cwd dir (target.join (Path.ofJoin item.below)) (names ++ item.below) := by
    have hjoin := ht.join (Path.inner_ofJoin item.below)
    rwa [Path.names_ofJoin] at hjoin
  rcases copyItem_eq_ok hc with ⟨hdir, rfl⟩ | ⟨-, hcopy⟩
  · refine ⟨h.makeDirAll hplace.along, fun rel _ hrel => ?_⟩
    rcases hrel with hcopied | ⟨-, hfile⟩
    · exact Copied.grows hcopied (makeDirAll_grows d cwd _)
    · simp [hdir] at hfile
  · have hgrows := makeParents_grows d cwd (target.join (Path.ofJoin item.below))
    have h₁ := h.makeParents hplace.along
    have hne : names ++ item.below ≠ [] := by simp [ne_nil_of_copyFile hcopy]
    obtain ⟨h', hwritten, -⟩ := h₁.of_copyFile hplace hne hcopy
    refine ⟨h', fun rel hsteady hrel => ?_⟩
    by_cases heq : item.below = rel
    · subst heq
      rw [hitem] at hcopy
      exact (h₁.copied_of_copyFile hsteady hplace hne hcopy).2.2
    · have hother : home ++ (names ++ rel) ≠ home ++ (names ++ item.below) := by
        simpa using Ne.symm heq
      have hcopied := hrel.resolve_right fun hin => heq hin.1
      exact (Copied.grows hcopied hgrows).written hwritten hother

theorem copyItems (h : base.Confined cwd dir home x d) (ht : Continues cwd dir target names)
    {w : Walk} (hitems : ∀ item, .ok item ∈ w → item.path = source.below item.below) {m n : ℕ}
    (hc : copyItems cwd target w n d = (.ok m, d')) :
    base.Confined cwd dir home x d' ∧
      ∀ rel, base.Steady cwd dir home x (source.below rel) →
        (base.CopiedBelow cwd source target home names rel d ∨
            ∃ item, .ok item ∈ w ∧ item.below = rel ∧ item.node.isDir = false) →
          base.CopiedBelow cwd source target home names rel d' := by
  induction w generalizing d n with
  | nil =>
    obtain ⟨-, rfl⟩ := Prod.mk.inj hc
    exact ⟨h, fun rel _ hrel => hrel.resolve_right (by simp)⟩
  | cons i w ih =>
    cases i with
    | error fault => simp [Disk.copyItems] at hc
    | ok item =>
      have hrest := fun item hi => hitems item (List.mem_cons_of_mem _ hi)
      obtain ⟨b, d₁, n', hitem, hc⟩ : ∃ b d₁ n', d.copyItem cwd target item = (.ok b, d₁) ∧
          Disk.copyItems cwd target w n' d₁ = (.ok m, d') := by
        rw [Disk.copyItems] at hc
        split at hc
        · simp at hc
        · next d₁ hd => exact ⟨true, d₁, _, hd, hc⟩
        · next d₁ hd => exact ⟨false, d₁, _, hd, hc⟩
      obtain ⟨h₁, hkept⟩ := h.copyItem ht (hitems item (List.mem_cons_self ..)) hitem
      obtain ⟨h', hall⟩ := ih h₁ hrest hc
      refine ⟨h', fun rel hsteady hrel => hall rel hsteady ?_⟩
      rcases hrel with hcopied | ⟨other, hother, hbelow, hfile⟩
      · exact .inl (hkept rel hsteady (.inl hcopied))
      · rcases List.mem_cons.mp hother with heq | hother
        · obtain rfl : other = item := Except.ok.inj heq
          exact .inl (hkept rel hsteady (.inr ⟨hbelow, hfile⟩))
        · exact .inr ⟨other, hother, hbelow, hfile⟩

/-- **A tree that is copied into the directory** has a copy of every file of it that is outside of
the directory. -/
theorem copyTree (h : base.Confined cwd dir home x d) (ht : Continues cwd dir target names) {n : ℕ}
    (hc : d.copyTree cwd source target = (.ok n, d')) :
    base.Confined cwd dir home x d' ∧
      ∀ rel node, d.Reaches cwd source rel node → rel ≠ [] → node.isDir = false →
        base.Steady cwd dir home x (source.below rel) →
          base.CopiedBelow cwd source target home names rel d' := by
  obtain ⟨w, es, hl⟩ := lstat_of_copyTree hc
  rw [copyTree_of_lstat hl] at hc
  have hplace : Continues cwd dir (target.join (Path.ofJoin [])) (names ++ []) :=
    ht.join (Path.inner_ofJoin [])
  have hgrows := makeDirAll_grows d cwd (target.join (Path.ofJoin []))
  have h₁ := h.makeDirAll hplace.along
  rcases hmade : d.makeDirAll cwd (target.join (Path.ofJoin [])) with ⟨e | u, d₁⟩
  · rw [hmade] at hc
    cases hc
  rw [hmade] at hc hgrows h₁
  obtain ⟨h', hall⟩ :=
    h₁.copyItems ht (fun item hi => path_of_mem_walk (List.mem_of_mem_tail hi)) hc
  refine ⟨h', fun rel node hr hne hfile hsteady => hall rel hsteady (.inr ?_)⟩
  -- what is no directory is reached as before the target was made
  obtain ⟨es', hl'⟩ := lstat_of_grows hgrows hl
  have hr' := (reaches_iff_of_grows hgrows (stat_of_lstat hl rfl) hfile).mpr hr
  exact ⟨_, hr'.mem_tail_walk hl' hne, rfl, hfile⟩

end

end Confined

end

end SuiteGate.Disk
