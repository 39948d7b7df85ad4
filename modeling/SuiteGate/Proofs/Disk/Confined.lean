import SuiteGate.Proofs.Disk.Overlays
import SuiteGate.Proofs.Disk.Separate
import SuiteGate.Proofs.Parents
/-!
# Changes inside a directory

A path leads to a directory that has no links in it (`Disk.Grounds`), and all that changes is in
that directory: one of its trees is removed, directories are made, and files are copied
(`Disk.Confined`).  As the way to the directory and all in it is free of new links, what is written
below the path comes to stand exactly where its names say (`Confined.of_copyFile`).

Whether there are links in a directory can be checked (`Node.linkless_iff`).
-/

namespace SuiteGate

namespace Node

mutual

/-- Whether no symbolic link stands at or below a node. -/
def linkless : Node → Bool
  | .file _ => true
  | .link _ => false
  | .dir _ es => linklessEntries es

/-- Whether no symbolic link stands at or below the nodes in a list of entries. -/
def linklessEntries : List (Name × Node) → Bool
  | [] => true
  | (_, c) :: es => c.linkless && linklessEntries es

end

theorem linkless_of_lookup {es : List (Name × Node)} {x : Name} {c : Node}
    (h : linklessEntries es = true) (hc : es.lookup x = some c) : c.linkless = true := by
  induction es with
  | nil => simp at hc
  | cons e es ih =>
    obtain ⟨hhead, hrest⟩ := (Bool.and_eq_true _ _).mp h
    rw [lookup_cons_eq] at hc
    split at hc
    · exact Option.some.inj hc ▸ hhead
    · exact ih hrest hc

theorem linkless_of_get? {n m : Node} {q : List Name} (h : n.linkless = true)
    (hm : n.get? q = some m) : m.linkless = true := by
  induction q generalizing n with
  | nil => exact Option.some.inj ((get?_nil n).symm.trans hm) ▸ h
  | cons x q ih =>
    obtain ⟨c, hc, hm⟩ := Option.bind_eq_some_iff.mp (get?_cons n x q ▸ hm)
    refine ih ?_ hm
    cases n with
    | dir l es => exact linkless_of_lookup h hc
    | file data | link target => simp [entries] at hc

mutual

theorem exists_link_of_not_linkless : ∀ {n : Node}, n.Distinct → n.linkless = false →
    ∃ q target, n.get? q = some (.link target)
  | .file _, _, h => by simp [linkless] at h
  | .link target, _, _ => ⟨[], target, rfl⟩
  | .dir _ _, hn, h => by
    obtain ⟨x, c, hc, q, target, hq⟩ := exists_link_of_not_linklessEntries hn h
    exact ⟨x :: q, target, by rw [get?_cons, entries, hc, Option.bind_some, hq]⟩

theorem exists_link_of_not_linklessEntries : ∀ {es : List (Name × Node)}, DistinctEntries es →
    linklessEntries es = false →
    ∃ x c, es.lookup x = some c ∧ ∃ q target, c.get? q = some (.link target)
  | [], _, h => by simp [linklessEntries] at h
  | (x, c) :: es, hes, h => by
    rcases (Bool.and_eq_false_iff ..).mp h with hc | hrest
    · exact ⟨x, c, by rw [lookup_cons_eq, if_pos rfl], exists_link_of_not_linkless hes.2.1 hc⟩
    · obtain ⟨y, m, hm, hlink⟩ := exists_link_of_not_linklessEntries hes.2.2 hrest
      refine ⟨y, m, ?_, hlink⟩
      -- the name of the first entry is not used again
      rw [lookup_cons_eq, if_neg, hm]
      rintro rfl
      exact nomatch (lookup_eq_none_of_not_mem hes.1).symm.trans hm

end

/-- **The check for links** finds out whether there are any. -/
theorem linkless_iff {n : Node} (h : n.Distinct) :
    n.linkless = true ↔ ∀ q target, n.get? q ≠ some (.link target) := by
  constructor
  · exact fun hn q target hq => nomatch linkless_of_get? hn hq
  · intro hn
    by_contra hnot
    obtain ⟨q, target, hq⟩ := exists_link_of_not_linkless h (by simpa using hnot)
    exact hn q target hq

end Node

namespace Disk

/-- A path leads to a directory without links in it. -/
structure Grounds (d : Disk) (cwd : List Name) (dir : Path) (home : List Name) : Prop where
  leads : ∃ n, d.locate cwd dir true = .ok (home, n) ∧ n.isDir = true
  noLink : ∀ q target, home <+: q → d.kindAt q ≠ some (.link target)

/-- Whether a path leads to a directory without links in it. -/
def hasGrounds (d : Disk) (cwd : List Name) (dir : Path) (home : List Name) : Bool :=
  match d.locate cwd dir true with
  | .ok (place, n) => place = home && n.isDir && n.linkless
  | .error _ => false

theorem hasGrounds_iff {d : Disk} {cwd home : List Name} {dir : Path} :
    d.hasGrounds cwd dir home = true ↔ d.Grounds cwd dir home := by
  have hlinks : ∀ n, d.locate cwd dir true = .ok (home, n) →
      (n.linkless = true ↔ ∀ q target, home <+: q → d.kindAt q ≠ some (.link target)) := by
    intro n hl
    obtain ⟨-, -, hget, -⟩ := locate_eq_ok_iff.mp hl
    have hbelow : ∀ q, d.get? (home ++ q) = n.get? q := get?_append_of_get? hget
    rw [Node.linkless_iff (Node.distinct_of_get? d.distinct hget)]
    constructor
    · rintro h _ target ⟨q, rfl⟩ hk
      exact h q target ((hbelow q).symm.trans (get?_of_kindAt_link hk))
    · intro h q target hq
      refine h (home ++ q) target (List.prefix_append _ _) ?_
      rw [kindAt, hbelow, hq]
      rfl
  rw [hasGrounds]
  constructor
  · split
    · next place n hl =>
      simp only [Bool.and_eq_true, decide_eq_true_eq, and_imp]
      rintro rfl hdir hlink
      exact ⟨⟨n, hl, hdir⟩, (hlinks n hl).mp hlink⟩
    · simp
  · rintro ⟨⟨n, hl, hdir⟩, hnoLink⟩
    simp [hl, hdir, (hlinks n hl).mpr hnoLink]

instance (d : Disk) (cwd : List Name) (dir : Path) (home : List Name) :
    Decidable (d.Grounds cwd dir home) :=
  decidable_of_iff _ hasGrounds_iff

/-- From a base, a disk came about by changes inside of a directory, in which no link came about,
and nothing but the tree of one name was removed. -/
structure Confined (base : Disk) (cwd : List Name) (dir : Path) (home : List Name) (x : Name)
    (d : Disk) : Prop where
  grounds : base.Grounds cwd dir home
  noLink : ∀ q target, home <+: q → d.kindAt q ≠ some (.link target)
  outside : ∀ q, (home <+: q → home = q) → d.kindAt q = base.kindAt q
  apart : ∀ q, Apart home q → d.get? q = base.get? q
  dirAt : ∀ q, ¬ home ++ [x] <+: q → base.DirAt q → d.DirAt q
  fileAt : ∀ q, ¬ home ++ [x] <+: q → base.FileAt q → d.FileAt q
  /-- The path to the directory can be gone as before. -/
  onWay : ∀ q ∈ (base.route true maxLinks (origin cwd dir) dir.steps).met, base.Alike d q

/-- A path leads to the directory and on, but not up, or it is the first part of the path to it. -/
def Along (cwd : List Name) (dir p : Path) : Prop :=
  origin cwd p = origin cwd dir ∧
    ((∃ more, p.steps = dir.steps ++ more ∧ .up ∉ more) ∨ ∃ rest, dir.steps = p.steps ++ rest)

theorem Along.parent? {cwd : List Name} {dir p q : Path} (h : Along cwd dir p)
    (hq : p.parent? = some q) : Along cwd dir q := by
  obtain ⟨horigin, h⟩ := h
  obtain ⟨last, hsteps, -⟩ := Path.steps_parent? hq
  refine ⟨by rw [← horigin, origin, origin, Path.isAbsolute_parent? hq], ?_⟩
  rcases h with ⟨more, hmore, hup⟩ | ⟨rest, hrest⟩
  · rcases List.append_eq_append_iff.mp (hsteps.symm.trans hmore) with
      ⟨rest, hrest, -⟩ | ⟨kept, hkept, rfl⟩
    · exact .inr ⟨rest, hrest⟩
    · exact .inl ⟨kept, hkept, fun hmem => hup (List.mem_append_left _ hmem)⟩
  · exact .inr ⟨last ++ rest, by rw [hrest, hsteps, List.append_assoc]⟩

/-- A path goes on from the path to the directory, down some names. -/
structure Continues (cwd : List Name) (dir p : Path) (names : List Name) : Prop where
  origin_eq : origin cwd p = origin cwd dir
  steps_eq : ∃ more, p.steps = dir.steps ++ more ∧ .up ∉ more ∧
    more.filterMap Path.Step.name? = names

namespace Continues

variable {cwd names : List Name} {dir p q : Path}

theorem refl (cwd : List Name) (dir : Path) : Continues cwd dir dir [] :=
  ⟨rfl, [], (List.append_nil _).symm, List.not_mem_nil, rfl⟩

theorem join (h : Continues cwd dir p names) (hq : q.Inner) :
    Continues cwd dir (p.join q) (names ++ q.names) := by
  obtain ⟨horigin, more, hsteps, hup, rfl⟩ := h
  refine ⟨(origin_join hq.relative).trans horigin, more ++ q.steps, ?_, ?_, ?_⟩
  · rw [Path.steps_join hq.relative, hsteps, List.append_assoc]
  · simpa [hup] using hq.noUp
  · rw [List.filterMap_append, Path.names]

theorem along (h : Continues cwd dir p names) : Along cwd dir p := by
  obtain ⟨horigin, more, hsteps, hup, -⟩ := h
  exact ⟨horigin, .inl ⟨more, hsteps, hup⟩⟩

end Continues

/-! ### Changing one place -/

/-- A file or a directory was put where there was no directory. -/
structure Altered (d : Disk) (place : List Name) (d' : Disk) : Prop where
  before : ¬ d.DirAt place
  after : ∀ target, d'.kindAt place ≠ some (.link target)
  fileAt : d.FileAt place → d'.FileAt place
  elsewhere : ∀ q, q ≠ place → d'.kindAt q = d.kindAt q
  apart : ∀ q, Apart place q → d'.get? q = d.get? q

section

variable {d d' : Disk} {cwd : List Name} {p : Path}

/-- A node without entries is put where no directory stands. -/
theorem altered_of_put {above : List Name} {y : Name} {n : Node} {hn : n.Distinct}
    (hleaf : n.entries = []) (hlink : n.isLink = false)
    (hfile : d.FileAt (above ++ [y]) → n.isFile = true) (hdir : d.DirAt above)
    (hnot : ¬ d.DirAt (above ++ [y])) :
    d.Altered (above ++ [y]) (d.put (above ++ [y]) n hn).tick where
  before := hnot
  after target := by
    rw [kindAt_tick, kindAt_put_leaf hleaf hdir hnot, if_pos rfl, ne_eq, Option.some.injEq,
      Node.kind_eq_link_iff]
    rintro rfl
    simp [Node.isLink] at hlink
  fileAt hold := by
    cases n with
    | dir l es => cases hfile hold
    | link target => simp [Node.isLink] at hlink
    | file data =>
      exact ⟨data, by rw [kindAt_tick, kindAt_put_leaf hleaf hdir hnot, if_pos rfl]; rfl⟩
  elsewhere q hq := by rw [kindAt_tick, kindAt_put_leaf hleaf hdir hnot, if_neg hq]
  apart q hq := by rw [get?_tick, get?_put_of_apart hq]

/-- A directory is made where nothing stood. -/
theorem altered_of_makeDir (h : d.makeDir cwd p = .ok d') :
    ∃ place, (d.route false maxLinks (origin cwd p) p.steps).goal = some place ∧
      d.kindAt place = none ∧ d'.DirAt place ∧ d.Altered place d' := by
  obtain ⟨above, y, hr, -, rfl⟩ := exists_absent_of_makeDir h
  obtain ⟨hfol, hf⟩ := resolveSteps_eq_ok_iff.mp hr
  obtain ⟨hgoal, hdir, hfree, -⟩ := route_of_absent hfol.start hf
  refine ⟨above ++ [y], hgoal, hfree, ⟨.full, ?_⟩, altered_of_put rfl rfl ?_ hdir ?_⟩
  · rw [kindAt_tick, kindAt_of_makeDir hdir hfree, if_pos rfl]
  · rintro ⟨data, hdata⟩
    simp [hfree] at hdata
  · rintro ⟨l, hl⟩
    simp [hfree] at hl

/-- **A copy of a file,** put where the look-up of its path ended. -/
theorem altered_of_copyFile {source : Path} (h : d.copyFile cwd source p = .ok d') :
    ∃ original data place found, d.locate cwd source true = .ok (original, .file data) ∧
      d.Followable cwd p ∧
      followLinks d.root true maxLinks (origin cwd p) p.steps = .ok found ∧
      found.Writable d place ∧ d.Altered place d' ∧ d.Written place d' ∧
      d'.LeadsToFile cwd p place ∧ (place ≠ original →
        ∃ data', d'.kindAt place = some (.file data') ∧ data'.bytes = data.bytes) := by
  obtain ⟨original, data, place, executable, hsource, ho, hd'⟩ := exists_of_copyFile h
  obtain ⟨-, hfol, found, hf, hw⟩ := exists_writable_of_openForWriting ho
  obtain ⟨above, y, rfl, hdir, hnot⟩ := hw.exists_dir
  have hkinds : ∀ q, d'.kindAt q = if q = above ++ [y] then some (.file
      ⟨if above ++ [y] = original then ByteArray.empty else data.bytes, d.clock,
        data.executable⟩) else d.kindAt q :=
    fun q => hd' ▸ kindAt_putFile hdir hnot q
  have haltered : d.Altered (above ++ [y]) d' :=
    hd' ▸ altered_of_put rfl rfl (fun _ => rfl) hdir hnot
  obtain ⟨hwritten, hleads⟩ := written_of_openForWriting ho hkinds
  refine ⟨original, data, _, found, hsource, hfol, hf, hw, haltered, hwritten, hleads,
    fun hne => ⟨_, by rw [hkinds, if_pos rfl], by rw [if_neg hne]⟩⟩

end

/-! ### Inside the directory -/

section

variable {base d d' : Disk} {cwd home : List Name} {dir : Path} {x : Name}

theorem Grounds.goal_route (hg : base.Grounds cwd dir home) :
    (base.route true maxLinks (origin cwd dir) dir.steps).goal = some home := by
  obtain ⟨n, hn, -⟩ := hg.leads
  obtain ⟨-, hgoal, -, -⟩ := locate_eq_ok_iff.mp hn
  rw [route_steps_of_wayTo hgoal, hgoal]

/-- The path to the directory can be followed step by step. -/
theorem Grounds.followLinks_steps (hg : base.Grounds cwd dir home) :
    ∃ n, n.isDir = true ∧
      followLinks base.root true maxLinks (origin cwd dir) dir.steps = .ok (.present home n) := by
  obtain ⟨n, hn, hdir⟩ := hg.leads
  obtain ⟨hfol, hgoal, hget, hmet⟩ := locate_eq_ok_iff.mp hn
  refine ⟨n, hdir, followLinks_eq_present_iff.mpr ?_⟩
  rw [route_steps_of_wayTo hgoal]
  exact ⟨hgoal, hget, hmet⟩

theorem Grounds.dirAt_home (hg : base.Grounds cwd dir home) : base.DirAt home := by
  obtain ⟨n, hn, hdir⟩ := hg.leads
  obtain ⟨-, -, hget, -⟩ := locate_eq_ok_iff.mp hn
  exact dirAt_iff.mpr ⟨n, hget, hdir⟩

/-- The first part of the path leads to a directory, too. -/
theorem Grounds.exists_dir (hg : base.Grounds cwd dir home) {steps rest : List Path.Step}
    (hsteps : dir.steps = steps ++ rest) :
    ∃ g, (base.route true maxLinks (origin cwd dir) steps).goal = some g ∧ base.DirAt g ∧
      ∀ q ∈ (base.route true maxLinks (origin cwd dir) steps).met,
        q ∈ (base.route true maxLinks (origin cwd dir) dir.steps).met := by
  by_cases hrest : rest = []
  · rw [hrest, List.append_nil] at hsteps
    exact ⟨home, hsteps ▸ hg.goal_route, hg.dirAt_home, fun q hq => hsteps ▸ hq⟩
  · obtain ⟨n, -, hall⟩ := hg.followLinks_steps
    obtain ⟨m, hm, -⟩ := hg.leads
    obtain ⟨hfol, -⟩ := locate_eq_ok_iff.mp hm
    rw [hsteps] at hall
    obtain ⟨g, m, -, hpart, hdir, -⟩ := exists_dir_of_followLinks_append hrest hfol.start hall
    obtain ⟨hgoal, hget, -⟩ := followLinks_eq_present_iff.mp hpart
    refine ⟨g, hgoal, dirAt_iff.mpr ⟨m, hget, hdir⟩, fun q hq => ?_⟩
    rcases route_append base true maxLinks (origin cwd dir) steps hrest with
      ⟨hnone, -⟩ | ⟨g', k', -, heq⟩
    · rw [← hsteps, hg.goal_route] at hnone
      cases hnone
    · rw [hsteps, heq]
      exact List.mem_append_left _ hq

/-- What the path comes by inside of the directory can be passed. -/
theorem Grounds.passable (hg : base.Grounds cwd dir home) {q : List Name} (hin : home <+: q)
    (hq : q ∈ (base.route true maxLinks (origin cwd dir) dir.steps).met) : base.Passable q := by
  rcases hk : base.kindAt q with - | data | target | l
  · exact .inl hk
  · obtain ⟨l, hl⟩ := hg.dirAt_home
    rcases goal_of_file_met hq hk with hnone | hsome
    · exact nomatch hnone.symm.trans hg.goal_route
    · obtain rfl : home = q := Option.some.inj (hg.goal_route.symm.trans hsome)
      simp [hk] at hl
  · exact absurd hk (hg.noLink q target hin)
  · exact .inr ⟨l, hk⟩

theorem Grounds.confined (hg : base.Grounds cwd dir home) :
    base.Confined cwd dir home x base where
  grounds := hg
  noLink := hg.noLink
  outside _ _ := rfl
  apart _ _ := rfl
  dirAt _ _ h := h
  fileAt _ _ h := h
  onWay _ _ := .inl rfl

namespace Confined

theorem route_eq (h : base.Confined cwd dir home x d) :
    d.route true maxLinks (origin cwd dir) dir.steps =
      base.route true maxLinks (origin cwd dir) dir.steps :=
  route_eq_of_alike fun q hq => .inl (h.onWay q hq)

theorem dirAt_home (h : base.Confined cwd dir home x d) : d.DirAt home := by
  obtain ⟨l, hl⟩ := h.grounds.dirAt_home
  exact ⟨l, (h.outside home fun _ => rfl).trans hl⟩

/-- **What a path leads to below the directory** is where its names say. -/
theorem goal_of_inner (h : base.Confined cwd dir home x d) {final : Bool}
    {more : List Path.Step} {place : List Name} (hne : more ≠ []) (hup : .up ∉ more)
    (hgoal : (d.route final maxLinks (origin cwd dir) (dir.steps ++ more)).goal = some place) :
    place = home ++ more.filterMap Path.Step.name? := by
  rcases route_append d final maxLinks (origin cwd dir) dir.steps hne with
    ⟨hnone, -⟩ | ⟨g, k', hg', heq⟩
  · simp [hnone] at hgoal
  · obtain rfl : home = g := by
      rw [h.route_eq, h.grounds.goal_route] at hg'
      exact Option.some.inj hg'
    rw [heq] at hgoal
    rcases route_inner final k' hup h.noLink with hnone | hsome
    · exact nomatch hnone.symm.trans hgoal
    · exact Option.some.inj (hgoal.symm.trans hsome)

/-- **A change inside of the directory** keeps a disk confined, if it does not block the path to
the directory. -/
theorem altered (h : base.Confined cwd dir home x d) {place : List Name}
    (ha : d.Altered place d') (hin : home <+: place) (hne : home ≠ place)
    (hway : place ∈ (base.route true maxLinks (origin cwd dir) dir.steps).met →
      base.Alike d' place) : base.Confined cwd dir home x d' where
  grounds := h.grounds
  noLink q target hq := by
    by_cases hqp : q = place
    · exact hqp ▸ ha.after target
    · rw [ha.elsewhere q hqp]
      exact h.noLink q target hq
  outside q hq := by
    rw [ha.elsewhere q ?_, h.outside q hq]
    rintro rfl
    exact hne (hq hin)
  apart q hq := by
    obtain ⟨r, rfl⟩ := hin
    rw [ha.apart q ?_, h.apart q hq]
    have happart := hq.append r []
    rwa [List.append_nil] at happart
  dirAt q hq hbase := by
    have hd := h.dirAt q hq hbase
    have hqp : q ≠ place := by
      rintro rfl
      exact ha.before hd
    obtain ⟨l, hl⟩ := hd
    exact ⟨l, (ha.elsewhere q hqp).trans hl⟩
  fileAt q hq hbase := by
    have hd := h.fileAt q hq hbase
    by_cases hqp : q = place
    · exact hqp ▸ ha.fileAt (hqp ▸ hd)
    · obtain ⟨data, hdata⟩ := hd
      exact ⟨data, (ha.elsewhere q hqp).trans hdata⟩
  onWay q hq := by
    by_cases hqp : q = place
    · exact hqp ▸ hway (hqp ▸ hq)
    · simpa only [Alike, Passable, DirAt, FileAt, ha.elsewhere q hqp] using h.onWay q hq

/-- The first part of the path leads where it did in the base. -/
theorem exists_dir (h : base.Confined cwd dir home x d) {steps rest : List Path.Step}
    (hsteps : dir.steps = steps ++ rest) :
    ∃ g, (d.route true maxLinks (origin cwd dir) steps).goal = some g ∧ base.DirAt g := by
  obtain ⟨g, hgoal, hdir, hmet⟩ := h.grounds.exists_dir hsteps
  have hsame : d.route true maxLinks (origin cwd dir) steps =
      base.route true maxLinks (origin cwd dir) steps :=
    route_eq_of_alike fun q hq => .inl (h.onWay q (hmet q hq))
  exact ⟨g, hsame ▸ hgoal, hdir⟩

/-- What is free at the end of such a path is inside of the directory. -/
theorem inside_of_free (h : base.Confined cwd dir home x d) {p : Path} (hp : Along cwd dir p)
    {place : List Name} (hfree : d.kindAt place = none)
    (hgoal : (d.route false maxLinks (origin cwd p) p.steps).goal = some place) :
    home <+: place ∧ home ≠ place := by
  obtain ⟨horigin, hp⟩ := hp
  rw [horigin] at hgoal
  have hpart : ∀ rest, dir.steps = p.steps ++ rest → home <+: place ∧ home ≠ place := by
    intro rest hrest
    obtain ⟨g, hg, l, hl⟩ := h.exists_dir hrest
    -- the place is free, so it is no link at which the way stopped
    obtain rfl : place = g := by
      rcases route_true_or_stopped d maxLinks (origin cwd dir) p.steps with
        hsame | ⟨stop, target, hstop, hlink, -⟩
      · rw [hsame, hgoal] at hg
        exact Option.some.inj hg
      · obtain rfl : place = stop := Option.some.inj (hgoal.symm.trans hstop)
        simp [hfree] at hlink
    by_contra hout
    rw [h.outside place (by simpa using hout), hl] at hfree
    simp at hfree
  rcases hp with ⟨more, hmore, hup⟩ | ⟨rest, hrest⟩
  · by_cases hne : more = []
    · exact hpart [] (by rw [hmore, hne, List.append_nil, List.append_nil])
    · rw [hmore] at hgoal
      obtain rfl := h.goal_of_inner hne hup hgoal
      refine ⟨List.prefix_append _ _, fun heq => ?_⟩
      obtain ⟨l, hl⟩ := h.dirAt_home
      rw [heq, hfree] at hl
      simp at hl
  · exact hpart rest hrest

/-- **A directory that is made** on the path to the directory, or below it, is inside of it. -/
theorem makeDir (h : base.Confined cwd dir home x d) {p : Path} (hp : Along cwd dir p)
    (hmade : d.makeDir cwd p = .ok d') : base.Confined cwd dir home x d' := by
  obtain ⟨place, hgoal, hfree, hdir, ha⟩ := altered_of_makeDir hmade
  obtain ⟨hin, hne⟩ := h.inside_of_free hp hfree hgoal
  refine h.altered ha hin hne fun hq => .inr (.inl ⟨?_, .inr hdir⟩)
  -- there was nothing on the way there, so the way in the base can go on there, too
  rcases h.onWay place hq with hsame | ⟨hpass, -⟩ | ⟨-, data, hdata⟩
  · exact .inl (hsame.symm.trans hfree)
  · exact hpass
  · simp [hfree] at hdata

theorem makeDirAll (h : base.Confined cwd dir home x d) {p : Path} (hp : Along cwd dir p) :
    base.Confined cwd dir home x (d.makeDirAll cwd p).2 :=
  makeDirAllFrom_keeps (fun _ _ hp hq => hp.parent? hq)
    (fun _ _ _ hp hd hmade => hd.makeDir hp hmade) _ hp h

theorem makeParents (h : base.Confined cwd dir home x d) {p : Path} (hp : Along cwd dir p) :
    base.Confined cwd dir home x (d.makeParents cwd p).2 := by
  rw [Disk.makeParents]
  split
  · next parent hparent => exact h.makeDirAll (hp.parent? hparent)
  · exact h

/-- **A file that is copied below the directory** comes to stand where the names of its path say,
and holds what the original holds. -/
theorem of_copyFile (h : base.Confined cwd dir home x d) {source p : Path} {names : List Name}
    (hp : Continues cwd dir p names) (hne : names ≠ []) (hc : d.copyFile cwd source p = .ok d') :
    base.Confined cwd dir home x d' ∧ d.Written (home ++ names) d' ∧
      d'.LeadsToFile cwd p (home ++ names) ∧
      ∃ original data, d.locate cwd source true = .ok (original, .file data) ∧
        (¬ home <+: original → ∃ data',
          d'.kindAt (home ++ names) = some (.file data') ∧ data'.bytes = data.bytes) := by
  obtain ⟨horigin, more, hsteps, hup, rfl⟩ := hp
  have hmore : more ≠ [] := fun hnil => hne (by rw [hnil, List.filterMap_nil])
  obtain ⟨original, data, place, found, hsource, hfol, hf, hw, ha, hwritten, hleads, hcontents⟩ :=
    altered_of_copyFile hc
  rw [hsteps, horigin] at hf
  have hstart : d.DirAt (origin cwd dir) := horigin ▸ hfol.start
  have hgoal : (d.route true maxLinks (origin cwd dir) (dir.steps ++ more)).goal = some place := by
    cases hw with
    | absent hdir hfree => exact (route_of_absent hstart hf).1
    | present hn => exact (followLinks_eq_present_iff.mp hf).1
  obtain rfl := h.goal_of_inner hmore hup hgoal
  have hin : home <+: home ++ more.filterMap Path.Step.name? := List.prefix_append _ _
  refine ⟨h.altered ha hin (fun heq => ?_) fun hq => ?_, hwritten, hleads, original, data, hsource,
    fun hout => hcontents fun heq => hout (heq ▸ hin)⟩
  · exact ha.before (heq ▸ h.dirAt_home)
  · -- all of the path to the directory is there, so what was written over on it was a file
    obtain ⟨g, n, k', hall, -, -⟩ := exists_dir_of_followLinks_append hmore hstart hf
    obtain ⟨-, -, hmet⟩ := followLinks_eq_present_iff.mp hall
    rw [h.route_eq] at hmet
    obtain ⟨old, hold⟩ := hwritten.before.resolve_left (hmet _ hq)
    refine .inr (.inr ⟨?_, hwritten.fileAt⟩)
    rcases h.onWay _ hq with hsame | ⟨-, hpass⟩ | ⟨hbase, -⟩
    · exact ⟨old, hsame.symm.trans hold⟩
    · exact absurd hpass (not_passable_of_file hold)
    · exact hbase

end Confined

/-- **Removing a tree of the directory.** -/
theorem Grounds.removeTree (hg : base.Grounds cwd dir home)
    (h : (base.removeTree cwd (dir.child x.text)).1 = .ok ()) :
    base.Confined cwd dir home x (base.removeTree cwd (dir.child x.text)).2 := by
  rcases (removeTree_spec base cwd (dir.child x.text)).1 h with
    ⟨-, hsame⟩ | ⟨place, n, hl, hne, herased⟩
  · rw [hsame]
    exact hg.confined
  · rw [herased]
    obtain rfl : place = home ++ [x] := by
      obtain ⟨-, hgoal, -, -⟩ := locate_eq_ok_iff.mp hl
      have horigin : origin cwd (dir.child x.text) = origin cwd dir := by
        rw [Path.child_eq, origin_join (Path.isAbsolute_ofJoin _)]
      rw [wayTo, stepsOf_child, horigin] at hgoal
      exact hg.confined.goal_of_inner (x := x) (List.cons_ne_nil _ []) (by simp) hgoal
    have hkinds : ∀ q, (base.erase (home ++ [x])).tick.kindAt q =
        if home ++ [x] <+: q then none else base.kindAt q := fun q => by
      rw [kindAt_tick, kindAt_erase hne]
    have hkept : ∀ q, ¬ home ++ [x] <+: q →
        (base.erase (home ++ [x])).tick.kindAt q = base.kindAt q := fun q hq => by
      rw [hkinds, if_neg hq]
    refine ⟨hg, fun q target hq => ?_, fun q hq => hkept q ?_, fun q hq => ?_, fun q hq hdir => ?_,
      fun q hq hfile => ?_, fun q hq => ?_⟩
    · rw [hkinds]
      split
      · simp
      · exact hg.noLink q target hq
    · intro hin
      obtain rfl := hq ((List.prefix_append _ _).trans hin)
      exact absurd hin.length_le (by simp)
    · have happart := hq.append [x] []
      rw [List.append_nil] at happart
      rw [get?_tick, get?_erase_of_apart happart]
    · exact hdir.imp fun l hl => (hkept q hq).trans hl
    · exact hfile.imp fun data hdata => (hkept q hq).trans hdata
    · by_cases hin : home ++ [x] <+: q
      · exact .inr (.inl ⟨hg.passable ((List.prefix_append _ _).trans hin) hq,
          .inl ((hkinds q).trans (if_pos hin))⟩)
      · exact .inl (hkept q hin)

end

end Disk

end SuiteGate
