import SuiteGate.Proofs.Disk.Changes
/-!
# The shape of a disk

The shape of a disk is what stands where, but for the times at which the files were written
(`Disk.shape`).  What an operation does depends on nothing else: on two disks of one shape a
look-up ends alike (`map_shape_followLinks`), and a change fails with the same error or leaves two
disks of one shape (`makeDirAll_congr`, `copyItems_congr`, `copyInto_congr`).
-/

namespace SuiteGate

namespace Kind

/-- A kind without the time at which a file was written. -/
def undated : Kind → Kind
  | .file data => .file { data with modified := default }
  | .link target => .link target
  | .dir listable => .dir listable

theorem undated_eq_dir_iff {k : Kind} {l : Access} : k.undated = .dir l ↔ k = .dir l := by
  cases k <;> simp [undated]

theorem undated_eq_link_iff {k : Kind} {target : Path} :
    k.undated = .link target ↔ k = .link target := by
  cases k <;> simp [undated]

/-- Two files that differ in the time alone hold the same. -/
theorem undated_eq_file_iff {k : Kind} {data : FileData} :
    k.undated = (Kind.file data).undated ↔
      ∃ data', k = .file data' ∧ data'.bytes = data.bytes ∧
        data'.executable = data.executable := by
  cases k <;> simp [undated]

end Kind

theorem Node.isDir_eq_of_undated {m n : Node} (h : m.kind.undated = n.kind.undated) :
    m.isDir = n.isDir := by
  cases m <;> cases n <;> simp_all [Node.kind, Kind.undated, Node.isDir]

namespace Disk

/-- What stands at a place, but for the time at which a file was written. -/
def shape (d : Disk) (place : List Name) : Option Kind :=
  (d.kindAt place).map Kind.undated

/-- The place that a look-up ends at, with what stands there. -/
def Place.shape : Place → List Name × Option Kind
  | .present place n => (place, some n.kind.undated)
  | .absent dir x => (dir ++ [x], none)

theorem Place.eq_absent_of_shape {place : Place} {dir : List Name} {x : Name}
    (h : place.shape = (Place.absent dir x).shape) : place = .absent dir x := by
  cases place with
  | present place n => simp [Place.shape] at h
  | absent dir' x' =>
    obtain ⟨rfl, hx⟩ := List.append_inj' (Prod.mk.inj h).1 rfl
    rw [List.singleton_inj.mp hx]

theorem Place.exists_present_of_shape {found : Place} {place : List Name} {n : Node}
    (h : found.shape = (Place.present place n).shape) :
    ∃ m, found = .present place m ∧ m.kind.undated = n.kind.undated := by
  cases found with
  | absent dir x => simp [Place.shape] at h
  | present place' m =>
    obtain ⟨rfl, hm⟩ := Prod.mk.inj h
    exact ⟨m, rfl, Option.some.inj hm⟩

section

variable {d d' : Disk}

theorem shape_tick (d : Disk) : d.tick.shape = d.shape := rfl

theorem shape_eq_none_iff {q : List Name} : d.shape q = none ↔ d.kindAt q = none :=
  Option.map_eq_none_iff

theorem shape_eq_dir_iff {q : List Name} {l : Access} :
    d.shape q = some (.dir l) ↔ d.kindAt q = some (.dir l) := by
  simp [shape, Option.map_eq_some_iff, Kind.undated_eq_dir_iff]

theorem shape_eq_link_iff {q : List Name} {target : Path} :
    d.shape q = some (.link target) ↔ d.kindAt q = some (.link target) := by
  simp [shape, Option.map_eq_some_iff, Kind.undated_eq_link_iff]

theorem shape_of_kindAt {q : List Name} {k : Kind} (h : d.kindAt q = some k) :
    d.shape q = some k.undated := by
  rw [shape, h, Option.map_some]

section

variable (h : d.shape = d'.shape)

include h

theorem kindAt_none_of_shape {q : List Name} (hq : d.kindAt q = none) : d'.kindAt q = none :=
  shape_eq_none_iff.mp ((congrFun h q).symm.trans (shape_eq_none_iff.mpr hq))

theorem kindAt_link_of_shape {q : List Name} {target : Path}
    (hq : d.kindAt q = some (.link target)) : d'.kindAt q = some (.link target) :=
  shape_eq_link_iff.mp ((congrFun h q).symm.trans (shape_eq_link_iff.mpr hq))

theorem dirAt_of_shape {q : List Name} (hq : d.DirAt q) : d'.DirAt q :=
  hq.imp fun _ hl => shape_eq_dir_iff.mp ((congrFun h q).symm.trans (shape_eq_dir_iff.mpr hl))

theorem isWritable_of_shape (q : List Name) : d.isWritable q = d'.isWritable q := by
  rw [Bool.eq_iff_iff, isWritable_iff, isWritable_iff]
  simp only [← shape_eq_dir_iff, h]

theorem exists_file_of_shape {q : List Name} {data : FileData}
    (hq : d.kindAt q = some (.file data)) :
    ∃ data', d'.kindAt q = some (.file data') ∧ data'.bytes = data.bytes ∧
      data'.executable = data.executable := by
  obtain ⟨k, hk, hsame⟩ : ∃ k, d'.kindAt q = some k ∧ k.undated = (Kind.file data).undated :=
    Option.map_eq_some_iff.mp ((congrFun h q).symm.trans (shape_of_kindAt hq))
  obtain ⟨data', rfl, hdata'⟩ := Kind.undated_eq_file_iff.mp hsame
  exact ⟨data', hk, hdata'⟩

/-- **Look-ups end alike** on disks of one shape. -/
theorem map_shape_followLinks (final : Bool) (k : ℕ) (here : List Name) (steps : List Path.Step) :
    (followLinks d.root final k here steps).map Place.shape =
      (followLinks d'.root final k here steps).map Place.shape := by
  -- the induction is along the way in the first disk; the other one takes the same branch
  induction k, here, steps using route_induction d final with
  | nil k here =>
    have hhere := congrFun h here
    rw [followLinks_nil, followLinks_nil]
    cases hn : d.get? here with
    | none =>
      have hnone := kindAt_eq_none_iff.mp (kindAt_none_of_shape h (kindAt_eq_none_iff.mpr hn))
      rw [hnone]
    | some n =>
      rw [shape_of_kindAt (kindAt_of_get? hn)] at hhere
      obtain ⟨_, hk, hsame⟩ := Option.map_eq_some_iff.mp hhere.symm
      obtain ⟨m, hm, rfl⟩ := kindAt_eq_some_iff.mp hk
      rw [hm]
      simp [Except.map, Place.shape, hsame]
  | stay k here rest ih => rw [followLinks_stay, followLinks_stay, ih]
  | up k here rest ih => rw [followLinks_up, followLinks_up, ih]
  | down k here x rest hp ih =>
    rcases hp with hp | hp
    · rw [followLinks_missing hp, followLinks_missing (kindAt_none_of_shape h hp)]
    · rw [followLinks_dir hp, followLinks_dir (dirAt_of_shape h hp), ih]
  | file k here x rest data hk =>
    obtain ⟨data', hk', hbytes, hexecutable⟩ := exists_file_of_shape h hk
    rw [followLinks_file hk, followLinks_file hk']
    split
    · simp [Except.map, Place.shape, Node.kind, Kind.undated, hbytes, hexecutable]
    · rfl
  | stop k here x target hfinal hk =>
    subst hfinal
    rw [followLinks_stop hk, followLinks_stop (kindAt_link_of_shape h hk)]
  | turn k here x rest target hk hgo ih =>
    rw [followLinks_turn hk hgo, followLinks_turn (kindAt_link_of_shape h hk) hgo, ih]
  | lost here x rest target hk hgo =>
    rw [followLinks_lost hk hgo, followLinks_lost (kindAt_link_of_shape h hk) hgo]

/-- **Steps lead alike** on disks of one shape. -/
theorem map_shape_resolveSteps (cwd : List Name) (p : Path) (steps : List Path.Step)
    (final : Bool) :
    (d.resolveSteps cwd p steps final).map Place.shape =
      (d'.resolveSteps cwd p steps final).map Place.shape := by
  have hfollow : ((followLinks d.root final maxLinks (origin cwd p) steps).mapError
        IoError.os).map Place.shape =
      ((followLinks d'.root final maxLinks (origin cwd p) steps).mapError
        IoError.os).map Place.shape := by
    have hsame := map_shape_followLinks h final maxLinks (origin cwd p) steps
    cases hf : followLinks d.root final maxLinks (origin cwd p) steps <;>
      cases hf' : followLinks d'.root final maxLinks (origin cwd p) steps <;>
      simp_all [Except.map, Except.mapError]
  rw [resolveSteps, resolveSteps]
  split
  · rfl
  split
  · rfl
  -- both start in a directory, or none does
  by_cases hstart : d.DirAt (origin cwd p)
  · obtain ⟨n, hn, hdir⟩ := dirAt_iff.mp hstart
    obtain ⟨n', hn', hdir'⟩ := dirAt_iff.mp (dirAt_of_shape h hstart)
    obtain ⟨l, es, rfl⟩ := Node.exists_eq_dir hdir
    obtain ⟨l', es', rfl⟩ := Node.exists_eq_dir hdir'
    simpa [hn, hn'] using hfollow
  · have hstart' : ¬ d'.DirAt (origin cwd p) := fun hs => hstart (dirAt_of_shape h.symm hs)
    have hnot : ∀ {e : Disk}, ¬ e.DirAt (origin cwd p) → ∀ l es,
        e.get? (origin cwd p) ≠ some (.dir l es) := fun hs l es hn =>
      hs ⟨l, kindAt_of_get? hn⟩
    split
    · next hn => exact absurd hn (hnot hstart _ _)
    split
    · next hn => exact absurd hn (hnot hstart' _ _)
    rfl

/-- **The ways in which steps lead alike:** both look-ups fail with one error, both end at one free
name, or both end at one place, where the same stands. -/
theorem resolveSteps_cases (cwd : List Name) (p : Path) (steps : List Path.Step) (final : Bool) :
    (∃ e, d.resolveSteps cwd p steps final = .error e ∧
        d'.resolveSteps cwd p steps final = .error e) ∨
      (∃ dir x, d.resolveSteps cwd p steps final = .ok (.absent dir x) ∧
        d'.resolveSteps cwd p steps final = .ok (.absent dir x)) ∨
      ∃ place n m, d.resolveSteps cwd p steps final = .ok (.present place n) ∧
        d'.resolveSteps cwd p steps final = .ok (.present place m) ∧
        m.kind.undated = n.kind.undated := by
  have hsame := map_shape_resolveSteps h cwd p steps final
  rcases hr : d.resolveSteps cwd p steps final with e | found <;>
    rcases hr' : d'.resolveSteps cwd p steps final with e' | found' <;> rw [hr, hr'] at hsame
  · exact .inl ⟨e, rfl, congrArg Except.error (Except.error.inj hsame).symm⟩
  · cases hsame
  · cases hsame
  · have hshape : found'.shape = found.shape := (Except.ok.inj hsame).symm
    cases found with
    | absent dir x => exact .inr (.inl ⟨dir, x, rfl, by rw [Place.eq_absent_of_shape hshape]⟩)
    | present place n =>
      obtain ⟨m, rfl, hm⟩ := Place.exists_present_of_shape hshape
      exact .inr (.inr ⟨place, n, m, rfl, rfl, hm⟩)

/-- What a path leads to is alike on disks of one shape. -/
theorem locate_cases (cwd : List Name) (p : Path) (final : Bool) :
    (∃ e, d.locate cwd p final = .error e ∧ d'.locate cwd p final = .error e) ∨
      ∃ place n m, d.locate cwd p final = .ok (place, n) ∧
        d'.locate cwd p final = .ok (place, m) ∧ m.kind.undated = n.kind.undated := by
  simp only [locate, resolve]
  rcases resolveSteps_cases h cwd p (stepsOf p) final with
    ⟨e, hr, hr'⟩ | ⟨dir, x, hr, hr'⟩ | ⟨place, n, m, hr, hr', hsame⟩ <;> rw [hr, hr']
  · exact .inl ⟨e, rfl, rfl⟩
  · exact .inl ⟨_, rfl, rfl⟩
  · exact .inr ⟨place, n, m, rfl, rfl, hsame⟩

theorem isDir_congr (cwd : List Name) (p : Path) : d.isDir cwd p = d'.isDir cwd p := by
  rw [isDir, isDir, stat, stat]
  rcases locate_cases h cwd p true with ⟨e, hl, hl'⟩ | ⟨place, n, m, hl, hl', hsame⟩
  · rw [hl, hl']
  · rw [hl, hl']
    exact (Node.isDir_eq_of_undated hsame).symm

end

/-! ### Changes -/

/-- The directory that is made is new in the shape. -/
theorem shape_of_makeDir {cwd dir : List Name} {p : Path} {x : Name}
    (hr : d.resolveSteps cwd p p.steps false = .ok (.absent dir x))
    (hw : d.isWritable dir = true) :
    ∃ e, d.makeDir cwd p = .ok e ∧
      e.shape = fun q => if q = dir ++ [x] then some (.dir .full) else d.shape q := by
  obtain ⟨hfol, hf⟩ := resolveSteps_eq_ok_iff.mp hr
  obtain ⟨-, hdir, hfree, -⟩ := route_of_absent hfol.start hf
  refine ⟨_, makeDir_eq_ok hr hw, funext fun q => ?_⟩
  rw [shape_tick, shape, kindAt_of_makeDir hdir hfree]
  split
  · rfl
  · rfl

/-- The file that is written is new in the shape. -/
theorem shape_putFile {place : List Name} {found : Place} (hw : found.Writable d place)
    (bytes : ByteArray) (executable : Bool) :
    (d.putFile place bytes executable).shape = fun q =>
      if q = place then some (Kind.file ⟨bytes, default, executable⟩) else d.shape q := by
  obtain ⟨dir, x, rfl, hdir, hnot⟩ := hw.exists_dir
  funext q
  rw [shape, kindAt_putFile hdir hnot]
  split
  · rfl
  · rfl

section

variable (h : d.shape = d'.shape)

include h

theorem makeDir_congr (cwd : List Name) (p : Path) :
    (d.makeDir cwd p).map shape = (d'.makeDir cwd p).map shape := by
  rcases resolveSteps_cases h cwd p p.steps false with
    ⟨e, hr, hr'⟩ | ⟨dir, x, hr, hr'⟩ | ⟨place, n, m, hr, hr', -⟩
  · rw [makeDir, makeDir, hr, hr']
    rfl
  · have hsame := isWritable_of_shape h dir
    cases hw : d.isWritable dir with
    | false =>
      rw [makeDir, makeDir, hr, hr']
      simp [bind, Except.bind, hw, ← hsame]
    | true =>
      obtain ⟨e, he, hshape⟩ := shape_of_makeDir hr hw
      obtain ⟨e', he', hshape'⟩ := shape_of_makeDir hr' (hsame ▸ hw)
      rw [he, he', Except.map, Except.map, hshape, hshape', h]
  · rw [makeDir, makeDir, hr, hr']
    rfl

theorem openForWriting_congr (cwd : List Name) (p : Path) :
    d.openForWriting cwd p = d'.openForWriting cwd p := by
  rw [openForWriting, openForWriting]
  rcases resolveSteps_cases h cwd p p.steps true with
    ⟨e, hr, hr'⟩ | ⟨dir, x, hr, hr'⟩ | ⟨place, n, m, hr, hr', hsame⟩
  · rw [hr, hr']
    rfl
  · rw [hr, hr']
    simp only [bind, Except.bind, isWritable_of_shape h dir]
  · rw [hr, hr']
    cases n with
    | dir l es =>
      obtain ⟨es', rfl⟩ := Node.kind_eq_dir_iff.mp (Kind.undated_eq_dir_iff.mp hsame)
      rfl
    | link target =>
      obtain rfl := Node.kind_eq_link_iff.mp (Kind.undated_eq_link_iff.mp hsame)
      rfl
    | file data =>
      obtain ⟨data', hdata', -, hexecutable⟩ := Kind.undated_eq_file_iff.mp hsame
      obtain rfl := Node.kind_eq_file_iff.mp hdata'
      exact congrArg (fun b => if p.hasTrailingSlash then throw (IoError.os .notDirectory)
        else pure (place, b)) hexecutable.symm

/-- **A copy of a file** on disks of one shape. -/
theorem copyFile_congr (cwd : List Name) (source target : Path) :
    (d.copyFile cwd source target).map shape = (d'.copyFile cwd source target).map shape := by
  have hopen := openForWriting_congr h cwd target
  rw [copyFile, copyFile]
  rcases locate_cases h cwd source true with ⟨e, hl, hl'⟩ | ⟨original, n, m, hl, hl', hsame⟩
  · rw [hl, hl']
    rfl
  rw [hl, hl']
  cases n with
  | dir l es =>
    obtain ⟨es', rfl⟩ := Node.kind_eq_dir_iff.mp (Kind.undated_eq_dir_iff.mp hsame)
    rfl
  | link t =>
    obtain rfl := Node.kind_eq_link_iff.mp (Kind.undated_eq_link_iff.mp hsame)
    rfl
  | file data =>
    obtain ⟨data', hdata', hbytes, hexecutable⟩ := Kind.undated_eq_file_iff.mp hsame
    obtain rfl := Node.kind_eq_file_iff.mp hdata'
    rcases ho : d.openForWriting cwd target with e | ⟨place, executable⟩
    · rw [ho] at hopen
      simp only [bind, Except.bind, ← hopen]
    · obtain ⟨-, -, found, -, hw⟩ := exists_writable_of_openForWriting ho
      rw [ho] at hopen
      obtain ⟨-, -, found', -, hw'⟩ := exists_writable_of_openForWriting hopen.symm
      simp only [bind, Except.bind, ← hopen, pure, Except.pure, Except.map, hbytes, hexecutable,
        shape_putFile hw, shape_putFile hw', h]

end

/-! ### Series of changes -/

/-- Two series of changes come to the same: they have one result, and leave disks of one shape. -/
def Agree {α : Type} (r r' : Except IoError α × Disk) : Prop :=
  ∃ result e e', r = (result, e) ∧ r' = (result, e') ∧ e.shape = e'.shape

theorem agree_of_shape {α : Type} (result : Except IoError α) (h : d.shape = d'.shape) :
    Agree (result, d) (result, d') :=
  ⟨result, d, d', rfl, rfl, h⟩

/-- **A single change** fails with one error on two disks, or leaves disks of one shape. -/
theorem cases_of_map_shape {r r' : Except IoError Disk} (h : r.map shape = r'.map shape) :
    (∃ e, r = .error e ∧ r' = .error e) ∨
      ∃ d d', r = .ok d ∧ r' = .ok d' ∧ d.shape = d'.shape := by
  rcases r with e | d <;> rcases r' with e' | d'
  · exact .inl ⟨e, rfl, congrArg Except.error (Except.error.inj h).symm⟩
  · cases h
  · cases h
  · exact .inr ⟨d, d', rfl, rfl, Except.ok.inj h⟩

theorem makeDirAllFrom_congr (cwd : List Name) (n : ℕ) (p : Path) (h : d.shape = d'.shape) :
    Agree (makeDirAllFrom cwd n d p) (makeDirAllFrom cwd n d' p) := by
  -- the induction is on the levels above the path; what is tried is the same on both disks
  induction n generalizing d d' p with
  | zero => exact agree_of_shape _ h
  | succ n ih =>
    rw [makeDirAllFrom, makeDirAllFrom]
    split
    · exact agree_of_shape _ h
    rcases cases_of_map_shape (makeDir_congr h cwd p) with ⟨e, hm, hm'⟩ | ⟨d₁, d₁', hm, hm', h₁⟩
    · rw [hm, hm', isDir_congr h]
      dsimp only
      split
      · cases p.parent? with
        | none => exact agree_of_shape _ h
        | some parent =>
          obtain ⟨r, d₁, d₁', hr, hr', h₁⟩ := ih parent h
          dsimp only
          rw [hr, hr']
          cases r with
          | error e => exact agree_of_shape _ h₁
          | ok u =>
            dsimp only
            rcases cases_of_map_shape (makeDir_congr h₁ cwd p) with
              ⟨e, hm, hm'⟩ | ⟨d₂, d₂', hm, hm', h₂⟩
            · rw [hm, hm', isDir_congr h₁]
              exact agree_of_shape _ h₁
            · rw [hm, hm']
              exact agree_of_shape _ h₂
      · exact agree_of_shape _ h
    · rw [hm, hm']
      exact agree_of_shape _ h₁

section

variable (h : d.shape = d'.shape)

include h

/-- **Making a directory and those above it** on disks of one shape. -/
theorem makeDirAll_congr (cwd : List Name) (p : Path) :
    Agree (d.makeDirAll cwd p) (d'.makeDirAll cwd p) :=
  makeDirAllFrom_congr cwd _ p h

theorem makeParents_congr (cwd : List Name) (p : Path) :
    Agree (d.makeParents cwd p) (d'.makeParents cwd p) := by
  rw [makeParents, makeParents]
  cases p.parent? with
  | none => exact agree_of_shape _ h
  | some parent => exact makeDirAll_congr h cwd parent

theorem copyItem_congr (cwd : List Name) (target : Path) (item : WalkItem) :
    Agree (d.copyItem cwd target item) (d'.copyItem cwd target item) := by
  rw [copyItem, copyItem]
  generalize target.join ⟨Text.join "/" (item.below.map Name.text)⟩ = place
  split
  · obtain ⟨r, d₁, d₁', hr, hr', h₁⟩ := makeDirAll_congr h cwd place
    rw [hr, hr']
    cases r <;> exact agree_of_shape _ h₁
  · obtain ⟨r, d₁, d₁', hr, hr', h₁⟩ := makeParents_congr h cwd place
    rw [hr, hr']
    cases r with
    | error e => exact agree_of_shape _ h₁
    | ok u =>
      dsimp only
      rcases cases_of_map_shape (copyFile_congr h₁ cwd item.path place) with
        ⟨e, hc, hc'⟩ | ⟨d₂, d₂', hc, hc', h₂⟩
      · rw [hc, hc']
        exact agree_of_shape _ h₁
      · rw [hc, hc']
        exact agree_of_shape _ h₂

/-- **Copying the items of a walk** on disks of one shape. -/
theorem copyItems_congr (cwd : List Name) (target : Path) (w : Walk) (n : ℕ) :
    Agree (copyItems cwd target w n d) (copyItems cwd target w n d') := by
  induction w generalizing d d' n with
  | nil => exact agree_of_shape _ h
  | cons i w ih =>
    cases i with
    | error fault => exact agree_of_shape _ h
    | ok item =>
      obtain ⟨r, d₁, d₁', hr, hr', h₁⟩ := copyItem_congr h cwd target item
      rw [copyItems, copyItems, hr, hr']
      rcases r with e | _ | _
      · exact agree_of_shape _ h₁
      · exact ih h₁ n
      · exact ih h₁ (n + 1)

/-- **Copying a file into a directory** on disks of one shape. -/
theorem copyInto_congr (cwd : List Name) (file dir : Path) :
    Agree (d.copyInto cwd file dir) (d'.copyInto cwd file dir) := by
  rw [copyInto, copyInto]
  cases file.fileName? with
  | none => exact agree_of_shape _ h
  | some name =>
    obtain ⟨r, d₁, d₁', hr, hr', h₁⟩ := makeDirAll_congr h cwd dir
    dsimp only
    rw [hr, hr']
    cases r with
    | error e => exact agree_of_shape _ h₁
    | ok u =>
      dsimp only
      rcases cases_of_map_shape (copyFile_congr h₁ cwd file (dir.child name)) with
        ⟨e, hc, hc'⟩ | ⟨d₂, d₂', hc, hc', h₂⟩
      · rw [hc, hc']
        exact agree_of_shape _ h₁
      · rw [hc, hc']
        exact agree_of_shape _ h₂

end

end

end Disk

end SuiteGate
