import SuiteGate.Files
import SuiteGate.Proofs.Disk.Outside
import SuiteGate.Proofs.Disk.Seats
import SuiteGate.Proofs.Disk.Staging
import SuiteGate.Proofs.Operations
/-!
# Laying a directory anew

A directory is removed, a tree is copied to its place and files are copied into it
(`Disk.Relaid`).  What the directory holds then is settled by the sources alone: under each name
there is a copy of the last of the files of that name, or else of what the tree had there
(`Disk.Provides`).

-/

namespace SuiteGate.Disk

/-! ### Copying files into a directory -/

/-- Copies files into a directory, one after the other. -/
def copyAllInto (cwd : List Name) (dir : Path) : List Path → Disk → Except IoError Unit × Disk
  | [], d => (.ok (), d)
  | file :: files, d =>
    match d.copyInto cwd file dir with
    | (.error e, d') => (.error e, d')
    | (.ok (), d') => copyAllInto cwd dir files d'

theorem run_copyAllInto (dir : Path) (files : List Path) (w : World) :
    (Op.copyAllInto files dir).run.run w =
      ((copyAllInto w.cwd dir files w.disk).1.mapError fun e => .error (.io e),
        { w with disk := (copyAllInto w.cwd dir files w.disk).2 }) := by
  induction files generalizing w with
  | nil => rfl
  | cons file files ih =>
    rw [Op.copyAllInto, Op.run_forM_cons, Op.copyInto, Op.run_changePartly, copyAllInto]
    rcases w.disk.copyInto w.cwd file dir with ⟨e | u, d⟩
    · rfl
    · exact ih { w with disk := d }

section

variable {d d' : Disk} {cwd : List Name} {dir : Path}

theorem copyAllInto_congr (h : d.shape = d'.shape) (cwd : List Name) (dir : Path)
    (files : List Path) :
    Agree (copyAllInto cwd dir files d) (copyAllInto cwd dir files d') := by
  induction files generalizing d d' with
  | nil => exact agree_of_shape _ h
  | cons file files ih =>
    obtain ⟨r, d₁, d₁', hr, hr', h₁⟩ := copyInto_congr h cwd file dir
    rw [copyAllInto, copyAllInto, hr, hr']
    cases r with
    | error e => exact agree_of_shape _ h₁
    | ok u => exact ih h₁

/-- A file that was copied into a directory has a name, under which it is copied there. -/
theorem copyInto_eq_ok {file : Path} (h : d.copyInto cwd file dir = (.ok (), d')) :
    ∃ x : Name, file.fileName? = some x.text ∧
      (d.makeDirAll cwd dir).2.copyFile cwd file (dir.child x.text) = .ok d' := by
  rw [copyInto] at h
  cases hname : file.fileName? with
  | none => simp [hname] at h
  | some name =>
    obtain ⟨x, rfl⟩ := Path.exists_name_of_fileName? hname
    rw [hname] at h
    refine ⟨x, rfl, ?_⟩
    rcases hmade : d.makeDirAll cwd dir with ⟨e | u, d₁⟩
    · simp [hmade] at h
    · rw [hmade] at h
      cases hc : d₁.copyFile cwd file (dir.child x.text) with
      | error e => simp [hc, settle] at h
      | ok d₂ =>
        simp only [hc, settle, Prod.mk.injEq, true_and] at h
        rw [h]

/-- **What one more file keeps** holds when all files were copied. -/
theorem copyAllInto_keeps {I : List Path → Disk → Prop} {files : List Path}
    (hstep : ∀ done file d d', file ∈ files → I done d →
      d.copyInto cwd file dir = (.ok (), d') → I (done ++ [file]) d')
    (h : copyAllInto cwd dir files d = (.ok (), d')) (hd : I [] d) : I files d' := by
  have hall : ∀ (rest done : List Path) (d : Disk), done ++ rest = files → I done d →
      copyAllInto cwd dir rest d = (.ok (), d') → I files d' := by
    -- the induction is on the files to come, for every list of files before them
    intro rest
    induction rest with
    | nil =>
      rintro done d rfl hd h
      rw [copyAllInto, Prod.mk.injEq] at h
      rw [List.append_nil]
      exact h.2 ▸ hd
    | cons file rest ih =>
      rintro done d hdone hd h
      rw [copyAllInto] at h
      rcases hc : d.copyInto cwd file dir with ⟨e | u, d₁⟩
      · simp [hc] at h
      · rw [hc] at h
        refine ih (done ++ [file]) d₁ (by rw [← hdone]; simp) ?_ h
        exact hstep done file d d₁ (hdone ▸ by simp) hd hc
  exact hall files [] d rfl hd h

end

/-! ### What is to be there -/

/-- From which path what is to stand under some names is copied: the last of the files if they have
that name, and otherwise what the tree has there. -/
inductive Provides (d : Disk) (cwd : List Name) (tree : Path) (files : List Path) :
    List Name → Path → Prop
  | file {before after : List Path} {p : Path} {x : Name} : files = before ++ p :: after →
    p.fileName? = some x.text → (∀ q ∈ after, q.fileName? ≠ some x.text) →
    Provides d cwd tree files [x] p
  | tree {rel : List Name} {n : Node} : d.Reaches cwd tree rel n → n.isDir = false →
    (∀ x : Name, rel = [x] → ∀ q ∈ files, q.fileName? ≠ some x.text) →
    Provides d cwd tree files rel (tree.below rel)

namespace Provides

variable {d : Disk} {cwd : List Name} {tree : Path} {files : List Path}

/-- With one more file, its name is taken by it, and the others are as before. -/
theorem of_concat {file p : Path} {rel : List Name}
    (h : Provides d cwd tree (files ++ [file]) rel p) :
    (∃ x : Name, rel = [x] ∧ file.fileName? = some x.text ∧ p = file) ∨
      Provides d cwd tree files rel p ∧
        ∀ x : Name, rel = [x] → file.fileName? ≠ some x.text := by
  cases h with
  | tree hr hn hnot =>
    exact .inr ⟨.tree hr hn fun x hx q hq => hnot x hx q (List.mem_append_left _ hq),
      fun x hx => hnot x hx file (by simp)⟩
  | @file before after p x hfiles hp hafter =>
    rcases List.eq_nil_or_concat after with rfl | ⟨after, last, rfl⟩
    · obtain ⟨-, hlast⟩ := List.append_inj' hfiles rfl
      obtain rfl := List.singleton_inj.mp hlast
      exact .inl ⟨x, rfl, hp, rfl⟩
    · rw [List.concat_eq_append, ← List.cons_append, ← List.append_assoc] at hfiles
      obtain ⟨hinit, hlast⟩ := List.append_inj' hfiles rfl
      obtain rfl := List.singleton_inj.mp hlast
      refine .inr ⟨.file hinit hp fun q hq => hafter q (by simp [hq]), fun y hy => ?_⟩
      obtain rfl := List.singleton_inj.mp hy
      exact hafter file (by simp)

/-- Under the name of a file something is to be. -/
theorem exists_of_mem {p : Path} {x : Name} (hp : p ∈ files) (hx : p.fileName? = some x.text) :
    ∃ q, Provides d cwd tree files [x] q := by
  -- the last file of the name is the first from behind
  cases hfound : files.reverse.find? fun q => q.fileName? = some x.text with
  | none =>
    have hnone := List.find?_eq_none.mp hfound p (List.mem_reverse.mpr hp)
    simp [hx] at hnone
  | some q =>
    obtain ⟨hq, after, before, hfiles, hafter⟩ := List.find?_eq_some_iff_append.mp hfound
    have hsplit : files = before.reverse ++ q :: after.reverse := by
      rw [← List.reverse_reverse files, hfiles]
      simp
    refine ⟨q, .file hsplit (of_decide_eq_true hq) fun r hr => ?_⟩
    simpa using hafter r (List.mem_reverse.mp hr)

/-- Where the tree has something, something is to be. -/
theorem exists_of_reaches {rel : List Name} {n : Node} (h : d.Reaches cwd tree rel n)
    (hn : n.isDir = false) : ∃ q, Provides d cwd tree files rel q := by
  by_cases htaken : ∃ x : Name, rel = [x] ∧ ∃ q ∈ files, q.fileName? = some x.text
  · obtain ⟨x, rfl, q, hq, hx⟩ := htaken
    exact exists_of_mem hq hx
  · exact ⟨_, .tree h hn fun x hx q hq hname => htaken ⟨x, hx, q, hq, hname⟩⟩

end Provides

/-! ### The sources -/

/-- What is copied is sought outside of the directory that is laid anew: no path to it leads by
anything in that directory, nor does the path to the directory lead by anything in the tree. -/
structure Sourced (d : Disk) (cwd : List Name) (tree target : Path) (files : List Path)
    (above : List Name) (x : Name) : Prop where
  seated : d.Seated cwd target above x
  clear : d.Clear cwd (above ++ [x]) tree
  outside : ∀ place ∈ (d.wayTo cwd true tree).goal,
    ∀ q ∈ (above ++ [x]) :: (d.approach cwd target).met, ¬ place <+: q
  links : ∀ rel n, d.Reaches cwd tree rel n → n.isLink = true →
    d.Clear cwd (above ++ [x]) (tree.below rel)
  files : ∀ p ∈ files, d.Clear cwd (above ++ [x]) p

/-- Whether a path leads to a node that no symbolic link stands at or below. -/
def linkFree (d : Disk) (cwd : List Name) (p : Path) : Bool :=
  match d.stat cwd p with
  | .ok n => n.linkless
  | .error _ => true

/-- No link is reached where there is none. -/
theorem isLink_of_linkFree {d : Disk} {cwd rel : List Name} {p : Path} {n : Node}
    (h : d.linkFree cwd p = true) (hr : d.Reaches cwd p rel n) : n.isLink = false := by
  obtain ⟨top, htop, hholds⟩ := hr
  rw [linkFree, htop] at h
  have hn := Node.linkless_of_get? h hholds.get?
  cases n with
  | link target => cases hn
  | file data | dir l es => rfl

/-- **A directory was laid anew:** it was removed, the tree was copied to its place, and the files
were copied into it. -/
def Relaid (d : Disk) (cwd : List Name) (tree target : Path) (files : List Path) (d' : Disk) :
    Prop :=
  ∃ n b c, d.removeTree cwd target = (.ok (), b) ∧ b.copyTree cwd tree target = (.ok n, c) ∧
    copyAllInto cwd target files c = (.ok (), d')

/-- From a disk, a directory was removed and made anew. -/
structure Cleared (d b d₁ : Disk) (cwd : List Name) (target : Path) (above : List Name)
    (x : Name) : Prop where
  kinds : ∀ q, b.kindAt q = if above ++ [x] <+: q then none else d.kindAt q
  nodes : ∀ q, Apart (above ++ [x]) q → b.get? q = d.get? q
  approaches : b.Approaches cwd target above x
  founded : b.Founded cwd target above x d₁
  grounds : d₁.Grounds cwd target (above ++ [x])

section

variable {d b c d₁ d' : Disk} {cwd above : List Name} {tree target : Path} {files : List Path}
  {x : Name}

/-- **The first half:** the directory is gone, and made anew. -/
theorem Seated.cleared (h : d.Seated cwd target above x)
    (hremoved : d.removeTree cwd target = (.ok (), b))
    (hmade : b.makeDirAll cwd (target.join (Path.ofJoin [])) = (.ok (), d₁)) :
    d.Cleared b d₁ cwd target above x ∧ d₁.isDir cwd (target.join (Path.ofJoin [])) = true := by
  have hok : (d.removeTree cwd target).1 = .ok () := by rw [hremoved]
  have hkinds := h.kindAt_removeTree hok
  have hnodes := fun q hq => h.get?_removeTree hok (q := q) hq
  rw [hremoved] at hkinds hnodes
  have hsame : ∀ q, ¬ above ++ [x] <+: q → d.Alike b q := fun q hq => .inl (by
    rw [hkinds, if_neg hq])
  obtain ⟨-, happroaches⟩ := h.toApproaches.of_alike hsame
  obtain ⟨hway, hjoined⟩ := happroaches.join_nil
  have hdir := isDir_of_makeDirAll hjoined.isEmpty_text hmade
  have hfounded := hjoined.founded
  rw [hmade] at hfounded
  have hfounded' : b.Founded cwd target above x d₁ :=
    ⟨hway ▸ hfounded.kinds, hway ▸ hfounded.kept, hfounded.writable⟩
  refine ⟨⟨hkinds, hnodes, happroaches, hfounded', hfounded'.grounds happroaches ?_ ?_⟩, hdir⟩
  · rw [hkinds, if_pos List.prefix_rfl]
  · exact isDir_of_join_nil happroaches.isEmpty_text hdir

namespace Cleared

/-- What stands elsewhere stands there still. -/
theorem kindAt_eq (h : d.Cleared b d₁ cwd target above x) {q : List Name}
    (hq : ¬ above ++ [x] <+: q) (hd : d.kindAt q ≠ none) : d₁.kindAt q = d.kindAt q := by
  have hb : b.kindAt q = d.kindAt q := by rw [h.kinds, if_neg hq]
  rcases h.founded.kinds q with hsame | ⟨-, hnone, -⟩
  · exact hsame.trans hb
  · exact absurd (hb.symm.trans hnone) hd

theorem alike (h : d.Cleared b d₁ cwd target above x) {q : List Name}
    (hq : ¬ above ++ [x] <+: q) : d.Alike d₁ q := by
  have hb : b.kindAt q = d.kindAt q := by rw [h.kinds, if_neg hq]
  simpa only [Alike, Passable, DirAt, FileAt, hb] using h.founded.grows.alike q

/-- A path that leads by nothing in the directory leads to the same file after it was made anew. -/
theorem steady (h : d.Cleared b d₁ cwd target above x) {p : Path}
    (hp : d.Clear cwd (above ++ [x]) p) : d₁.Steady cwd target (above ++ [x]) x p ∧
      ∀ bytes, d.readFile cwd p = .ok bytes → d₁.readFile cwd p = .ok bytes := by
  refine ⟨(hp.of_alike fun q hq => h.alike hq).2.steady, fun bytes hread => ?_⟩
  obtain ⟨place, data, hl, hbytes⟩ := readFile_eq_ok_iff.mp hread
  exact readFile_eq_ok_iff.mpr
    ⟨place, data, hp.locate_file (fun q hq hd => h.kindAt_eq hq hd) hl, hbytes⟩

/-- The directory was made, so the one above is writable. -/
theorem isWritable_above (h : d.Cleared b d₁ cwd target above x) :
    d₁.isWritable above = true := by
  obtain ⟨l, hl⟩ := h.grounds.dirAt_home
  exact h.founded.writable (by rw [h.kinds, if_pos List.prefix_rfl]) (by rw [hl]; simp)

/-- The directory above is there all the time. -/
theorem opens (h : d.Cleared b d₁ cwd target above x) {e : Disk}
    (he : d₁.Confined cwd target (above ++ [x]) x e) : e.Opens cwd target above x := by
  obtain ⟨m, hm, hdir⟩ := h.grounds.leads
  obtain ⟨-, happroaches⟩ := h.approaches.of_alike fun q _ => h.founded.grows.alike q
  have hopens := happroaches.opens (isDir_iff.mpr ⟨m, stat_eq_ok_iff.mpr ⟨_, hm⟩, hdir⟩)
  exact hopens.of_kindAt_eq fun q hq => he.outside q fun hin => absurd hin hq

end Cleared

/-- The tree that is copied stands apart from the directory, and is found there as long as what
stands outside of the directory does. -/
structure Found (d b d₁ : Disk) (cwd : List Name) (tree : Path) (home place : List Name)
    (w : Bool) (es : List (Name × Node)) : Prop where
  apart : Apart home place
  before : d.get? place = b.get? place
  after : d₁.get? place = b.get? place
  locate : ∀ e : Disk, (∀ q, ¬ home <+: q → b.kindAt q ≠ none → e.kindAt q = b.kindAt q) →
    e.get? place = b.get? place →
      ∀ final, e.locate cwd tree final = .ok (place, .dir ⟨true, w⟩ es)

theorem Sourced.exists_found (hs : d.Sourced cwd tree target files above x)
    (hc : d.Cleared b d₁ cwd target above x) {w : Bool} {es : List (Name × Node)}
    (hl : b.lstat cwd tree = .ok (.dir ⟨true, w⟩ es)) :
    ∃ place, Found d b d₁ cwd tree (above ++ [x]) place w es := by
  obtain ⟨place, hl⟩ := lstat_eq_ok_iff.mp hl
  have hl' := locate_true_of_not_isLink hl rfl
  obtain ⟨-, hgoal, hget, -⟩ := locate_eq_ok_iff.mp hl'
  have hb : ∀ q, ¬ above ++ [x] <+: q → b.kindAt q = d.kindAt q := fun q hq => by
    rw [hc.kinds, if_neg hq]
  obtain ⟨hway, hclear⟩ := hs.clear.of_alike fun q hq => .inl (hb q hq)
  obtain ⟨happroach, -⟩ := hs.seated.toApproaches.of_alike fun q hq => .inl (hb q hq)
  have hout := hs.outside place (hway ▸ hgoal)
  have happart : Apart (above ++ [x]) place :=
    ⟨hclear place (mem_trail_of_goal hgoal), hout _ (List.mem_cons_self ..)⟩
  refine ⟨place, happart, (hc.nodes place happart).symm, hc.founded.kept place ?_ ?_,
    fun e hsame hnode final => ?_⟩
  · simp [kindAt_of_get? hget]
  · exact happroach ▸ hout
  · cases final with
    | false => exact hclear.locate hsame hl (hnode.trans hget)
    | true => exact hclear.locate hsame hl' (hnode.trans hget)

namespace Found

variable {home place : List Name} {w : Bool} {es : List (Name × Node)} {rel : List Name}
  {n : Node}

theorem reaches_iff (h : Found d b d₁ cwd tree home place w es) {e : Disk}
    (hsame : ∀ q, ¬ home <+: q → b.kindAt q ≠ none → e.kindAt q = b.kindAt q)
    (hnode : e.get? place = b.get? place) :
    e.Reaches cwd tree rel n ↔ (Node.dir ⟨true, w⟩ es).Holds rel n := by
  have hstat := stat_eq_ok_iff.mpr ⟨place, h.locate e hsame hnode true⟩
  constructor
  · rintro ⟨top, htop, hholds⟩
    exact Except.ok.inj (htop.symm.trans hstat) ▸ hholds
  · exact fun hholds => ⟨_, hstat, hholds⟩

end Found

section

variable {place : List Name} {w : Bool} {es : List (Name × Node)} {rel : List Name} {n : Node}

/-- What stood there without the directory stands there when it was made anew. -/
theorem Cleared.kindAt_made (hc : d.Cleared b d₁ cwd target above x) {q : List Name}
    (hq : b.kindAt q ≠ none) : d₁.kindAt q = b.kindAt q :=
  (hc.founded.kinds q).resolve_right fun h => hq h.2.1

/-- What is in the tree is found there before and after the directory was made anew. -/
theorem Cleared.locate_tree (hc : d.Cleared b d₁ cwd target above x)
    (hf : Found d b d₁ cwd tree (above ++ [x]) place w es) :
    d.locate cwd tree true = .ok (place, .dir ⟨true, w⟩ es) ∧
      d₁.locate cwd tree true = .ok (place, .dir ⟨true, w⟩ es) :=
  ⟨hf.locate d (fun q hq _ => by rw [hc.kinds, if_neg hq]) hf.before true,
    hf.locate d₁ (fun _ _ hb => hc.kindAt_made hb) hf.after true⟩

theorem Cleared.lstat_tree (hc : d.Cleared b d₁ cwd target above x)
    (hf : Found d b d₁ cwd tree (above ++ [x]) place w es) :
    d₁.lstat cwd tree = .ok (.dir ⟨true, w⟩ es) :=
  lstat_eq_ok_iff.mpr ⟨place, hf.locate d₁ (fun _ _ hb => hc.kindAt_made hb) hf.after false⟩

/-- What the tree holds is reached before and after the directory was removed. -/
theorem Cleared.reaches_iff (hc : d.Cleared b d₁ cwd target above x)
    (hf : Found d b d₁ cwd tree (above ++ [x]) place w es) :
    (d.Reaches cwd tree rel n ↔ (Node.dir ⟨true, w⟩ es).Holds rel n) ∧
      (b.Reaches cwd tree rel n ↔ (Node.dir ⟨true, w⟩ es).Holds rel n) :=
  ⟨hf.reaches_iff (fun q hq _ => by rw [hc.kinds, if_neg hq]) hf.before,
    hf.reaches_iff (fun _ _ _ => rfl) rfl⟩

theorem Cleared.reaches_after (hc : d.Cleared b d₁ cwd target above x)
    (hf : Found d b d₁ cwd tree (above ++ [x]) place w es) :
    d₁.Reaches cwd tree rel n ↔ (Node.dir ⟨true, w⟩ es).Holds rel n :=
  hf.reaches_iff (fun _ _ hb => hc.kindAt_made hb) hf.after

/-- **What is in the tree** is the same file all the time. -/
theorem Sourced.steady_below (hs : d.Sourced cwd tree target files above x)
    (hc : d.Cleared b d₁ cwd target above x)
    (hf : Found d b d₁ cwd tree (above ++ [x]) place w es) (hr : d.Reaches cwd tree rel n) :
    d₁.Steady cwd target (above ++ [x]) x (tree.below rel) ∧
      ∀ bytes, d.readFile cwd (tree.below rel) = .ok bytes →
        d₁.readFile cwd (tree.below rel) = .ok bytes := by
  cases hlink : n.isLink with
  | true => exact hc.steady (hs.links rel n hr hlink)
  | false =>
    -- what is no link is found in the tree itself, which stands apart
    obtain ⟨hl, hl₁⟩ := hc.locate_tree hf
    have hholds := (hc.reaches_iff hf).1.mp hr
    have houtside : d₁.Outside cwd (above ++ [x]) x tree := by
      obtain ⟨-, hgoal, -⟩ := locate_eq_ok_iff.mp hl₁
      refine ⟨fun q hq => ?_, fun q hq hin => ?_⟩
      · exact Option.some.inj (hgoal.symm.trans hq) ▸ hf.apart
      · exact absurd hin ((hs.clear.of_alike fun q hq => hc.alike hq).2 q hq)
    refine ⟨(houtside.fixed.below hc.grounds ⟨_, stat_eq_ok_iff.mpr ⟨place, hl₁⟩, hholds⟩
      hlink).steady, fun bytes hread => ?_⟩
    obtain ⟨q, data, hq, hbytes⟩ := readFile_eq_ok_iff.mp hread
    obtain ⟨hfol, -⟩ := locate_eq_ok_iff.mp hq
    have hnul : '\x00' ∉ (tree.below rel).text.toList := by simpa using hfol.noNul
    rw [locate_below hl hholds hlink hnul] at hq
    exact readFile_eq_ok_iff.mpr
      ⟨q, data, (locate_below hl₁ hholds hlink hnul).trans hq, hbytes⟩

/-- **Every source** leads to the same file all the time. -/
theorem Sourced.steady (hs : d.Sourced cwd tree target files above x)
    (hc : d.Cleared b d₁ cwd target above x)
    (hf : Found d b d₁ cwd tree (above ++ [x]) place w es) {p : Path}
    (hp : d.Provides cwd tree files rel p) :
    d₁.Steady cwd target (above ++ [x]) x p ∧
      ∀ bytes, d.readFile cwd p = .ok bytes → d₁.readFile cwd p = .ok bytes := by
  cases hp with
  | file hfiles => exact hc.steady (hs.files p (by simp [hfiles]))
  | tree hr => exact hs.steady_below hc hf hr

end

/-! ### What the directory holds -/

/-- The parts of laying a directory anew. -/
theorem Relaid.exists_parts (h : d.Relaid cwd tree target files d') :
    ∃ n b d₁ c w es, d.removeTree cwd target = (.ok (), b) ∧
      b.lstat cwd tree = .ok (.dir ⟨true, w⟩ es) ∧ b.copyTree cwd tree target = (.ok n, c) ∧
      b.makeDirAll cwd (target.join (Path.ofJoin [])) = (.ok (), d₁) ∧
      copyItems cwd target (d₁.walk cwd tree).tail 0 d₁ = (.ok n, c) ∧
      copyAllInto cwd target files c = (.ok (), d') := by
  obtain ⟨n, b, c, hremoved, hall, hfiles⟩ := h
  obtain ⟨w, es, hl⟩ := lstat_of_copyTree hall
  have hcopied := hall
  rw [copyTree_of_lstat hl] at hcopied
  rcases hmade : b.makeDirAll cwd (target.join (Path.ofJoin [])) with ⟨e | u, d₁⟩
  · simp [hmade] at hcopied
  · rw [hmade] at hcopied
    exact ⟨n, b, d₁, c, w, es, hremoved, hl, hall, hmade, hcopied, hfiles⟩

/-- **A copied tree** is found below its target. -/
theorem Sourced.copyAt_of_copyItems (hs : d.Sourced cwd tree target files above x)
    (hc : d.Cleared b d₁ cwd target above x) {place : List Name} {w : Bool} {es : List (Name × Node)}
    (hf : Found d b d₁ cwd tree (above ++ [x]) place w es) {n : ℕ}
    (hcopied : copyItems cwd target (d₁.walk cwd tree).tail 0 d₁ = (.ok n, c)) :
    d₁.Confined cwd target (above ++ [x]) x c ∧
      ∀ rel m, d.Reaches cwd tree rel m → m.isDir = false →
        d₁.CopyAt cwd (tree.below rel) (above ++ [x] ++ rel) c := by
  obtain ⟨hconfined, hall⟩ := hc.grounds.confined (x := x) |>.copyItems
    (Continues.refl cwd target)
    (fun item hi => path_of_mem_walk (List.mem_of_mem_tail hi)) hcopied
  refine ⟨hconfined, fun rel m hr hm => ?_⟩
  have hholds := (hc.reaches_iff hf).1.mp hr
  -- the tree itself is a directory, so what is no directory is among its entries
  have hrel : rel ≠ [] := by
    rintro rfl
    cases hholds
    cases hm
  have hmem := (hc.reaches_after hf).mpr hholds |>.mem_tail_walk (hc.lstat_tree hf) hrel
  exact (hall rel (hs.steady_below hc hf hr).1 (.inr ⟨_, hmem, rfl, hm⟩)).copy

/-- **Files that are copied into the directory** take their names. -/
theorem Sourced.copyAt_of_copyAllInto (hs : d.Sourced cwd tree target files above x)
    (hc : d.Cleared b d₁ cwd target above x)
    (hconfined : d₁.Confined cwd target (above ++ [x]) x c)
    (htree : ∀ rel m, d.Reaches cwd tree rel m → m.isDir = false →
      d₁.CopyAt cwd (tree.below rel) (above ++ [x] ++ rel) c)
    (hfiles : copyAllInto cwd target files c = (.ok (), d')) :
    d₁.Confined cwd target (above ++ [x]) x d' ∧
      ∀ rel p, d.Provides cwd tree files rel p →
        d₁.CopyAt cwd p (above ++ [x] ++ rel) d' := by
  refine copyAllInto_keeps (I := fun done e => d₁.Confined cwd target (above ++ [x]) x e ∧
    ∀ rel p, d.Provides cwd tree done rel p → d₁.CopyAt cwd p (above ++ [x] ++ rel) e) ?_ hfiles
    ⟨hconfined, fun rel p hp => ?_⟩
  · rintro done file e e' hfile ⟨he, hcopies⟩ hcopy
    obtain ⟨y, hy, hcopy⟩ := copyInto_eq_ok hcopy
    have hmade := he.makeDirAll (Continues.refl cwd target).along
    have hplace : Continues cwd target (target.child y.text) [y] := by
      have hjoin := (Continues.refl cwd target).join (Path.inner_ofJoin [y])
      rwa [Path.names_ofJoin, ← Path.child_eq] at hjoin
    obtain ⟨he', hwritten, hcopied⟩ := hmade.copied_of_copyFile
      (hc.steady (hs.files file hfile)).1 hplace (List.cons_ne_nil y []) hcopy
    -- the file was copied, or what was there before has another name
    refine ⟨he', fun rel p hp => ?_⟩
    rcases hp.of_concat with ⟨z, rfl, hz, rfl⟩ | ⟨hp, hnot⟩
    · obtain rfl : y = z := Name.text_inj.mp (Option.some.inj (hy.symm.trans hz))
      exact hcopied.copy
    · refine ((hcopies rel p hp).grows (makeDirAll_grows e cwd target)).written hwritten ?_
      rw [ne_eq, List.append_cancel_left_eq]
      exact fun hrel => hnot y hrel hy
  · cases hp with
    | file hsplit => simp at hsplit
    | tree hr hm => exact htree _ _ hr hm

/-- **What a directory holds that was laid anew:** copies of what is to be there, and beside them
only directories. -/
structure Laid (d : Disk) (cwd : List Name) (tree target : Path) (files : List Path)
    (home : List Name) (d' : Disk) : Prop where
  leads : ∃ n, d'.locate cwd target true = .ok (home, n) ∧ n.isDir = true
  copies : ∀ rel p, d.Provides cwd tree files rel p → ∃ data,
    d'.kindAt (home ++ rel) = some (.file data) ∧ d'.readFile cwd p = .ok data.bytes ∧
      ∀ bytes, d.readFile cwd p = .ok bytes → bytes = data.bytes
  only : ∀ rel, d'.kindAt (home ++ rel) = none ∨ d'.DirAt (home ++ rel) ∨
    ∃ p, d.Provides cwd tree files rel p
  outside : ∀ q, ¬ home <+: q →
    d'.kindAt q = d.kindAt q ∨ d.kindAt q = none ∧ d'.DirAt q

/-- Nothing but what is to be there is brought into the directory. -/
theorem Cleared.staged (hc : d.Cleared b d₁ cwd target above x) {w : Bool} {es : List (Name × Node)}
    {place : List Name} (hf : Found d b d₁ cwd tree (above ++ [x]) place w es) {n : ℕ}
    (hcopied : b.copyTree cwd tree target = (.ok n, c))
    (hfiles : copyAllInto cwd target files c = (.ok (), d')) :
    (b.wayTo cwd true target).goal = some (above ++ [x]) ∧
      Staged b cwd target (fun rel => ∃ p, d.Provides cwd tree files rel p) d' := by
  have hgoal : (b.wayTo cwd true target).goal = some (above ++ [x]) := by
    obtain ⟨m, hm, -⟩ := hc.grounds.leads
    obtain ⟨-, hgoal, -⟩ := locate_eq_ok_iff.mp hm
    have hway : d₁.wayTo cwd true target = b.wayTo cwd true target :=
      route_eq_of_alike fun q _ => .inl (hc.founded.grows.alike q)
    exact hway ▸ hgoal
  have hfree : ∀ t ∈ (b.wayTo cwd true target).goal, b.kindAt t = none := by
    intro t ht
    rw [hgoal, Option.mem_def, Option.some.injEq] at ht
    rw [← ht, hc.kinds, if_pos List.prefix_rfl]
  have htree : Staged b cwd target (fun rel => ∃ p, d.Provides cwd tree files rel p)
      (b.copyTree cwd tree target).2 :=
    (Staged.start hfree).copyTree hfree fun rel m hr hm _ => Provides.exists_of_reaches
      ((hc.reaches_iff hf).1.mpr ((hc.reaches_iff hf).2.mp hr)) hm
  rw [hcopied] at htree
  refine ⟨hgoal, copyAllInto_keeps (I := fun _ e => Staged b cwd target _ e) ?_ hfiles htree⟩
  intro done file e e' hfile he hcopy
  have hinto := he.copyInto hfree fun y hy => Provides.exists_of_mem hfile hy
  rwa [hcopy] at hinto

/-- **Laying a directory anew** leaves exactly what is to be there, whatever was there before, and
nothing else is changed. -/
theorem Relaid.laid (hr : d.Relaid cwd tree target files d')
    (hs : d.Sourced cwd tree target files above x) :
    d.Laid cwd tree target files (above ++ [x]) d' := by
  obtain ⟨n, b, d₁, c, w, es, hremoved, hl, hall, hmade, hcopied, hfiles⟩ := hr.exists_parts
  obtain ⟨hc, hdir⟩ := hs.seated.cleared hremoved hmade
  obtain ⟨place, hf⟩ := hs.exists_found hc hl
  obtain ⟨hconfined, htree⟩ := hs.copyAt_of_copyItems hc hf hcopied
  obtain ⟨hconfined', hcopies⟩ := hs.copyAt_of_copyAllInto hc hconfined htree hfiles
  obtain ⟨hgoal, hstaged⟩ := hc.staged hf hall hfiles
  refine ⟨?_, fun rel p hp => ?_, fun rel => ?_, fun q hq => ?_⟩
  · obtain ⟨m, hm, hmdir⟩ := dirAt_iff.mp hconfined'.dirAt_home
    exact ⟨m, (hc.opens hconfined').locate_eq hm hmdir true, hmdir⟩
  · obtain ⟨data, hread, hdata⟩ := hcopies rel p hp
    obtain ⟨hsteady, hbefore⟩ := hs.steady hc hf hp
    refine ⟨data, hdata, (hsteady.readFile_iff hconfined').mpr hread, fun bytes hbytes => ?_⟩
    exact Except.ok.inj ((hbefore bytes hbytes).symm.trans hread)
  · exact (hstaged.inside _ hgoal rel).imp_right fun h => h.imp (fun hdir => ⟨_, hdir⟩) And.left
  · have hb : b.kindAt q = d.kindAt q := by rw [hc.kinds, if_neg hq]
    rw [← hb]
    exact hstaged.outside q fun t ht => Option.some.inj (hgoal.symm.trans ht) ▸ hq

/-! ### Laying it anew once more -/

/-- Without the directory, the disk is as it was when the directory had just been made, and making
it again leads to the same shape. -/
theorem Cleared.remade (hc : d.Cleared b d₁ cwd target above x)
    (hdir : d₁.isDir cwd (target.join (Path.ofJoin [])) = true)
    (he : d₁.Confined cwd target (above ++ [x]) x d') :
    ∃ e, ((d'.erase (above ++ [x])).tick).makeDirAll cwd (target.join (Path.ofJoin [])) =
        (.ok (), e) ∧ d₁.shape = e.shape ∧
      (∀ q, ¬ above ++ [x] <+: q → e.kindAt q = d₁.kindAt q) ∧
      ∀ q, Apart (above ++ [x]) q → e.get? q = d'.get? q := by
  have hfree : b.kindAt (above ++ [x]) = none := by rw [hc.kinds, if_pos List.prefix_rfl]
  have herased : ∀ q, (d'.erase (above ++ [x])).tick.kindAt q =
      if above ++ [x] <+: q then none else d'.kindAt q := fun q => by
    rw [kindAt_tick, kindAt_erase (by simp)]
  have hkept : ∀ q, ¬ above ++ [x] <+: q →
      (d'.erase (above ++ [x])).tick.kindAt q = d₁.kindAt q := fun q hq => by
    rw [herased, if_neg hq, he.outside q fun hin => absurd hin hq]
  have hw : (d'.erase (above ++ [x])).tick.isWritable above = true := by
    rw [isWritable_congr (hkept above Approaches.not_prefix_above)]
    exact hc.isWritable_above
  obtain ⟨-, happroaches⟩ :=
    hc.approaches.join_nil.2.of_alike fun q _ => hc.founded.grows.alike q
  obtain ⟨e, hmade, hkinds, hnodes⟩ := ((happroaches.opens hdir).of_kindAt_eq hkept).makeDirAll
    (by rw [herased, if_pos List.prefix_rfl]) hw
  have hsame : ∀ q, ¬ above ++ [x] <+: q → e.kindAt q = d₁.kindAt q := by
    intro q hq
    have hne : q ≠ above ++ [x] := fun heq => hq (heq ▸ List.prefix_rfl)
    rw [hkinds, if_neg hne, hkept q hq]
  refine ⟨e, hmade, funext fun q => ?_, hsame, fun q hq => ?_⟩
  · rw [shape, shape]
    -- the directory is there on both disks, nothing is in it, and outside of it nothing has changed
    by_cases hin : above ++ [x] <+: q
    · rw [hkinds]
      split
      · next hq =>
        obtain ⟨l, hl⟩ := hc.grounds.dirAt_home
        rcases hc.founded.kinds (above ++ [x]) with hsame | ⟨-, -, hmade⟩
        · cases hl.symm.trans (hsame.trans hfree)
        · rw [hq, hmade]
      · next hq =>
        rw [herased, if_pos hin, hc.founded.kindAt_below hc.approaches hfree hin (Ne.symm hq)]
    · rw [hsame q hin]
  · rw [hnodes q hq, get?_tick, get?_erase_of_apart hq]

/-- **Laying the directory anew once more** changes nothing but the times of the files. -/
theorem Relaid.again (hr : d.Relaid cwd tree target files d')
    (hs : d.Sourced cwd tree target files above x) :
    ∃ d'', d'.Relaid cwd tree target files d'' ∧ d''.shape = d'.shape := by
  obtain ⟨n, b, d₁, c, w, es, hremoved, hl, hall, hmade, hcopied, hfiles⟩ := hr.exists_parts
  obtain ⟨hc, hdir⟩ := hs.seated.cleared hremoved hmade
  obtain ⟨place, hf⟩ := hs.exists_found hc hl
  obtain ⟨hconfined, htree⟩ := hs.copyAt_of_copyItems hc hf hcopied
  obtain ⟨hconfined', -⟩ := hs.copyAt_of_copyAllInto hc hconfined htree hfiles
  obtain ⟨e, hmade', hshape, hkept, hnodes⟩ := hc.remade hdir hconfined'
  -- the tree is found as it was, without the directory and when it was made
  have hnode : d'.get? place = b.get? place := (hconfined'.apart place hf.apart).trans hf.after
  have hl' : (d'.erase (above ++ [x])).tick.lstat cwd tree = .ok (.dir ⟨true, w⟩ es) := by
    refine lstat_eq_ok_iff.mpr ⟨place, hf.locate _ (fun q hq hb => ?_) ?_ false⟩
    · rw [kindAt_tick, kindAt_erase (by simp), if_neg hq,
        hconfined'.outside q fun hin => absurd hin hq]
      exact hc.kindAt_made hb
    · rw [get?_tick, get?_erase_of_apart hf.apart, hnode]
  have hle : e.lstat cwd tree = .ok (.dir ⟨true, w⟩ es) := lstat_eq_ok_iff.mpr
    ⟨place, hf.locate e (fun q hq hb => (hkept q hq).trans (hc.kindAt_made hb))
      ((hnodes place hf.apart).trans hnode) false⟩
  -- nothing but new directories and copies is in the directory, so all of it goes
  obtain ⟨hgoal, hstaged⟩ := hc.staged hf hall hfiles
  have hremoved' : d'.removeTree cwd target = (.ok (), (d'.erase (above ++ [x])).tick) := by
    refine (hc.opens hconfined').removeTree_eq ?_ hconfined'.dirAt_home fun rel m hm hkeeps => ?_
    · rw [isWritable_congr (hconfined'.outside above fun hin =>
        absurd hin Approaches.not_prefix_above)]
      exact hc.isWritable_above
    · have hkind := kindAt_of_get? hm
      rcases hstaged.inside _ hgoal rel with hnone | hdir | ⟨-, data, hfile⟩
      · cases hnone.symm.trans hkind
      · obtain ⟨es, rfl⟩ := Node.kind_eq_dir_iff.mp (Option.some.inj (hkind.symm.trans hdir))
        simp [Node.Keeps, Access.full] at hkeeps
      · obtain rfl := Node.kind_eq_file_iff.mp (Option.some.inj (hkind.symm.trans hfile))
        exact hkeeps
  -- from the new directory on, all goes as before
  rw [walk_of_lstat (hc.lstat_tree hf), List.tail_cons] at hcopied
  obtain ⟨r, c₁, c₂, hr₁, hr₂, hshape'⟩ :=
    copyItems_congr hshape cwd target (Node.walkEntries tree [] es) 0
  obtain ⟨rfl, rfl⟩ := Prod.mk.inj (hcopied.symm.trans hr₁)
  obtain ⟨r, f₁, f₂, hf₁, hf₂, hsame⟩ := copyAllInto_congr hshape' cwd target files
  obtain ⟨rfl, rfl⟩ := Prod.mk.inj (hfiles.symm.trans hf₁)
  refine ⟨f₂, ⟨n, _, c₂, hremoved', ?_, hf₂⟩, hsame.symm⟩
  rw [copyTree_of_makeDirAll hl' hmade' hle]
  exact hr₂

end

end SuiteGate.Disk
