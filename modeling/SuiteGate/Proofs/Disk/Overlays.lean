import SuiteGate.Proofs.Disk.Changes
/-!
# Laying files over a tree

Copying files changes a tree in two ways: directories are made where nothing stood, and files come
to stand where the targets lead (`Disk.Overlaid`).  A target still leads to its file after other
files were copied, because a copy replaces nothing but a file (`Written.leadsToFile`).

A tree is listed when its target was made, so what is copied are the entries of the grown disk
(`copyTree_of_lstat`).

The headline is `overlaid_copyTree`; making directories and copying a single file keep a disk
overlaid, too (`Overlaid.grows`, `Overlaid.copyFile`).
-/

namespace SuiteGate.Disk

/-- A path leads to a file at a place. -/
def LeadsToFile (d : Disk) (cwd : List Name) (p : Path) (place : List Name) : Prop :=
  ∃ data, d.locate cwd p true = .ok (place, .file data)

/-- A file was written at a place where there was a file or nothing. -/
structure Written (d : Disk) (place : List Name) (d' : Disk) : Prop where
  before : d.kindAt place = none ∨ d.FileAt place
  fileAt : d'.FileAt place
  elsewhere : ∀ q, q ≠ place → d'.kindAt q = d.kindAt q

section

variable {d d' : Disk} {cwd : List Name} {p : Path} {place : List Name}

theorem Written.dirAt (h : d.Written place d') {q : List Name} (hq : d.DirAt q) : d'.DirAt q := by
  obtain ⟨l, hl⟩ := hq
  have hne : q ≠ place := by
    rintro rfl
    rcases h.before with hnone | ⟨data, hdata⟩
    · simp [hnone] at hl
    · simp [hdata] at hl
  exact ⟨l, (h.elsewhere q hne).trans hl⟩

theorem Written.kindAt_ne_none (h : d.Written place d') {q : List Name} (hq : d.kindAt q ≠ none) :
    d'.kindAt q ≠ none := by
  by_cases hne : q = place
  · obtain ⟨data, hdata⟩ := h.fileAt
    simp [hne, hdata]
  · rwa [h.elsewhere q hne]

/-- A way on which nothing was missing is the same after a file was written. -/
theorem Written.route_eq (h : d.Written place d') {final : Bool} {k : ℕ} {here : List Name}
    {steps : List Path.Step} (hmet : ∀ q ∈ (d.route final k here steps).met, d.kindAt q ≠ none) :
    d'.route final k here steps = d.route final k here steps := by
  refine route_eq_of_alike fun q hq => .inl ?_
  by_cases hne : q = place
  · subst hne
    rcases h.before with hnone | hfile
    · exact absurd hnone (hmet q hq)
    · exact .inr (.inr ⟨hfile, h.fileAt⟩)
  · exact .inl (h.elsewhere q hne)

/-- **A path that leads to a file leads to a file there** after one was written. -/
theorem Written.leadsToFile (h : d.Written place d') {q : List Name}
    (hq : d.LeadsToFile cwd p q) : d'.LeadsToFile cwd p q := by
  obtain ⟨data, hl⟩ := hq
  obtain ⟨hfol, hgoal, hn, hmet⟩ := locate_eq_ok_iff.mp hl
  have hway : d'.wayTo cwd true p = d.wayTo cwd true p := h.route_eq hmet
  have hfile : d'.FileAt q := by
    by_cases hne : q = place
    · exact hne ▸ h.fileAt
    · exact ⟨data, (h.elsewhere q hne).trans (kindAt_of_get? hn)⟩
  obtain ⟨data', hdata⟩ := hfile
  obtain ⟨n, hn', hk⟩ := kindAt_eq_some_iff.mp hdata
  obtain rfl := Node.kind_eq_file_iff.mp hk
  exact ⟨data', locate_eq_ok_iff.mpr ⟨⟨hfol.noNul, hfol.notEmpty, h.dirAt hfol.start⟩,
    hway ▸ hgoal, hn', fun r hr => h.kindAt_ne_none (hmet r (hway ▸ hr))⟩⟩

/-- The way that ended at a free name ends at the file that was written there. -/
theorem Written.route_of_absent {dir : List Name} {x : Name} (h : d.Written (dir ++ [x]) d')
    (hfree : d.kindAt (dir ++ [x]) = none) {final : Bool} {k : ℕ} {here : List Name}
    {steps : List Path.Step}
    (hf : followLinks d.root final k here steps = .ok (.absent dir x)) :
    d'.route final k here steps = d.route final k here steps := by
  have hsame : ∀ {q}, d.kindAt q ≠ none → d'.kindAt q = d.kindAt q := fun {q} hq =>
    h.elsewhere q fun heq => hq (heq ▸ hfree)
  -- the induction is on the steps that are left; only the last one meets the place
  induction k, here, steps using route_induction d final with
  | nil k here =>
    rw [followLinks_nil] at hf
    split at hf <;> simp at hf
  | stay k here rest ih =>
    rw [followLinks_stay] at hf
    rw [route_stay, route_stay, ih hf]
  | up k here rest ih =>
    rw [followLinks_up] at hf
    rw [route_up, route_up, ih hf]
  | down k here y rest hp ih =>
    rw [route_down hp]
    rcases hp with hp | hp
    · rw [followLinks_missing hp] at hf
      cases rest with
      | cons s rest => simp at hf
      | nil =>
        -- here the file was written
        simp only [List.isEmpty_nil, if_true, Except.ok.injEq, Place.absent.injEq] at hf
        obtain ⟨rfl, rfl⟩ := hf
        obtain ⟨data, hdata⟩ := h.fileAt
        rw [route_file hdata, route_nil]
        rfl
    · rw [followLinks_dir hp] at hf
      rw [route_down (.inr (h.dirAt hp)), ih hf]
  | file k here y rest data hk =>
    rw [followLinks_file hk] at hf
    split at hf <;> simp at hf
  | stop k here y target hfinal hk =>
    subst hfinal
    rw [followLinks_stop hk] at hf
    simp at hf
  | turn k here y rest target hk hgo ih =>
    rw [followLinks_turn hk hgo] at hf
    rw [route_turn hk hgo, route_turn ((hsame (by simp [hk])).trans hk) hgo, ih hf]
  | lost here y rest target hk hgo =>
    rw [followLinks_lost hk hgo] at hf
    simp at hf

/-- **A file is written where its path leads.** -/
theorem written_of_openForWriting {executable : Bool} {data : FileData}
    (ho : d.openForWriting cwd p = .ok (place, executable))
    (hkinds : ∀ q, d'.kindAt q = if q = place then some (.file data) else d.kindAt q) :
    d.Written place d' ∧ d'.LeadsToFile cwd p place := by
  obtain ⟨hslash, hfol, found, hf, hw⟩ := exists_writable_of_openForWriting ho
  have hdata : d'.kindAt place = some (.file data) := by rw [hkinds, if_pos rfl]
  have hother : ∀ q, q ≠ place → d'.kindAt q = d.kindAt q := fun q hq => by
    rw [hkinds, if_neg hq]
  have hsteps : d'.wayTo cwd true p = d'.route true maxLinks (origin cwd p) p.steps := by
    simp [wayTo, stepsOf, hslash]
  have hleads : d.Written place d' → (d'.wayTo cwd true p).goal = some place →
      (∀ q ∈ (d'.wayTo cwd true p).met, d'.kindAt q ≠ none) → d'.LeadsToFile cwd p place := by
    intro hwritten hgoal hmet
    obtain ⟨n, hn, hk⟩ := kindAt_eq_some_iff.mp hdata
    obtain rfl := Node.kind_eq_file_iff.mp hk
    exact ⟨data, locate_eq_ok_iff.mpr ⟨⟨hfol.noNul, hfol.notEmpty, hwritten.dirAt hfol.start⟩,
      hgoal, hn, hmet⟩⟩
  cases hw with
  | @absent dir x hdir hfree =>
    have hwritten : d.Written (dir ++ [x]) d' := ⟨.inl hfree, ⟨data, hdata⟩, hother⟩
    obtain ⟨hgoal, -, -, hmet⟩ := Disk.route_of_absent hfol.start hf
    rw [hsteps, hwritten.route_of_absent hfree hf] at hleads
    refine ⟨hwritten, hleads hwritten hgoal fun q hq => ?_⟩
    by_cases hne : q = dir ++ [x]
    · simp [hne, hdata]
    · exact hwritten.kindAt_ne_none (hmet q hq hne)
  | @present place old hn =>
    have hwritten : d.Written place d' := ⟨.inr ⟨old, kindAt_of_get? hn⟩, ⟨data, hdata⟩, hother⟩
    obtain ⟨hgoal, -, hmet⟩ := followLinks_eq_present_iff.mp hf
    rw [hsteps, hwritten.route_eq hmet] at hleads
    exact ⟨hwritten, hleads hwritten hgoal fun q hq => hwritten.kindAt_ne_none (hmet q hq)⟩

/-- A file is copied to where its target leads. -/
theorem exists_written_of_copyFile {source : Path} (h : d.copyFile cwd source p = .ok d') :
    ∃ place, d.Written place d' ∧ d'.LeadsToFile cwd p place := by
  obtain ⟨place, executable, data, ho, hkinds⟩ := exists_place_of_copyFile h
  exact ⟨place, written_of_openForWriting ho hkinds⟩

end

/-! ### The root of a copied tree -/

section

variable {d d' : Disk} {cwd : List Name} {source target : Path}

/-- The walk of a directory goes through its entries. -/
theorem walk_of_lstat {w : Bool} {es : List (Name × Node)}
    (h : d.lstat cwd source = .ok (.dir ⟨true, w⟩ es)) :
    d.walk cwd source =
      .ok ⟨source, [], .dir ⟨true, w⟩ es⟩ :: Node.walkEntries source [] es := by
  rw [walk, walkWith, h]
  rfl

/-- What is reached below a directory is among the entries that its walk goes through. -/
theorem Reaches.mem_tail_walk {w : Bool} {es : List (Name × Node)} {rel : List Name} {n : Node}
    (h : d.Reaches cwd source rel n) (hl : d.lstat cwd source = .ok (.dir ⟨true, w⟩ es))
    (hne : rel ≠ []) : .ok ⟨source.below rel, rel, n⟩ ∈ (d.walk cwd source).tail := by
  have hmem := h.mem_walk fun hnil => absurd hnil hne
  rw [walk_of_lstat hl] at hmem ⊢
  refine (List.mem_cons.mp hmem).resolve_left fun heq => hne ?_
  exact congrArg WalkItem.below (Except.ok.inj heq)

/-- **A tree is copied** by making its target, and then copying what is below. -/
theorem copyTree_of_lstat {l : Access} {es : List (Name × Node)}
    (h : d.lstat cwd source = .ok (.dir l es)) :
    d.copyTree cwd source target =
      match d.makeDirAll cwd (target.join (Path.ofJoin [])) with
      | (.error e, d') => (.error e, d')
      | (.ok (), d') => copyItems cwd target (d'.walk cwd source).tail 0 d' := by
  rw [copyTree, h]
  rfl

/-- What is copied are the entries that the directory has then. -/
theorem copyTree_of_makeDirAll {l : Access} {w : Bool} {es es' : List (Name × Node)}
    (h : d.lstat cwd source = .ok (.dir l es))
    (hmade : d.makeDirAll cwd (target.join (Path.ofJoin [])) = (.ok (), d'))
    (hafter : d'.lstat cwd source = .ok (.dir ⟨true, w⟩ es')) :
    d.copyTree cwd source target =
      copyItems cwd target (Node.walkEntries source [] es') 0 d' := by
  have htail : (d'.walk cwd source).tail = Node.walkEntries source [] es' := by
    rw [walk_of_lstat hafter, List.tail_cons]
  rw [copyTree_of_lstat h, hmade, ← htail]

/-- A file needs a name, so nothing but a directory is copied to the target itself. -/
theorem copyItems_start_ne_ok {node : Node} (hnode : node.isDir = false) {w : Walk} {m n : ℕ} :
    copyItems cwd target (.ok ⟨source, [], node⟩ :: w) m d ≠ (.ok n, d') := by
  intro hc
  rw [copyItems] at hc
  have hitem : ∀ {b d₁}, d.copyItem cwd target ⟨source, [], node⟩ ≠ (.ok b, d₁) := by
    intro b d₁ hitem
    rcases copyItem_eq_ok hitem with ⟨hdir, -⟩ | ⟨-, hcopy⟩
    · cases hdir.symm.trans hnode
    · exact ne_nil_of_copyFile hcopy rfl
  split at hc
  · cases hc
  · next hitem' => exact hitem hitem'
  · next hitem' => exact hitem hitem'

/-- A directory that cannot be listed cannot be listed when the target was made, either. -/
theorem copyTree_unlisted_ne_ok {w : Bool} {es : List (Name × Node)} {n : ℕ}
    (hl : d.lstat cwd source = .ok (.dir ⟨false, w⟩ es)) :
    d.copyTree cwd source target ≠ (.ok n, d') := by
  intro h
  have hgrows := makeDirAll_grows d cwd (target.join (Path.ofJoin []))
  rw [copyTree_of_lstat hl] at h
  rcases hmade : d.makeDirAll cwd (target.join (Path.ofJoin [])) with ⟨e | u, d₁⟩
  · rw [hmade] at h
    cases h
  · rw [hmade] at h hgrows
    obtain ⟨es', hl'⟩ := lstat_of_grows hgrows hl
    have htail : (d₁.walk cwd source).tail = [.error ⟨source, .os .permissionDenied⟩] := by
      rw [walk, walkWith, hl']
      rfl
    change copyItems cwd target (d₁.walk cwd source).tail 0 d₁ = _ at h
    rw [htail] at h
    cases h

/-- **Only a directory that can be listed** can be copied as a tree. -/
theorem lstat_of_copyTree {n : ℕ} (h : d.copyTree cwd source target = (.ok n, d')) :
    ∃ w es, d.lstat cwd source = .ok (.dir ⟨true, w⟩ es) := by
  cases hl : d.lstat cwd source with
  | error e =>
    rw [copyTree, walk, walkWith, hl] at h
    cases h
  | ok node =>
    cases node with
    | file data =>
      rw [copyTree, walk, walkWith, hl] at h
      exact absurd h (copyItems_start_ne_ok rfl)
    | link t =>
      rw [copyTree, walk, walkWith, hl] at h
      cases hs : d.stat cwd source with
      | error e =>
        rw [hs] at h
        cases h
      | ok m =>
        rw [hs] at h
        cases m with
        | file data => exact absurd h (copyItems_start_ne_ok rfl)
        | link t' => exact absurd h (copyItems_start_ne_ok rfl)
        | dir l es => exact absurd h (copyItems_start_ne_ok rfl)
    | dir l es =>
      rcases l with ⟨- | -, w⟩
      · exact absurd h (copyTree_unlisted_ne_ok hl)
      · exact ⟨w, es, rfl⟩

end

/-! ### Overlays -/

/-- From a base, a disk came about by making directories where nothing stood and by copying files
to the given paths. -/
def Overlaid (base : Disk) (cwd : List Name) (Target : Path → Prop) (d : Disk) : Prop :=
  ∀ q, d.kindAt q = base.kindAt q ∨ base.kindAt q = none ∧ d.DirAt q ∨
    (base.kindAt q = none ∨ base.FileAt q) ∧ ∃ p, Target p ∧ d.LeadsToFile cwd p q

section

variable {base d d' : Disk} {cwd : List Name} {Target Target' : Path → Prop}

theorem Overlaid.refl (base : Disk) (cwd : List Name) (Target : Path → Prop) :
    base.Overlaid cwd Target base :=
  fun _ => .inl rfl

theorem Overlaid.mono (h : base.Overlaid cwd Target d) (hT : ∀ p, Target p → Target' p) :
    base.Overlaid cwd Target' d :=
  fun q => (h q).imp_right fun h => h.imp_right fun ⟨hbefore, p, hp, hleads⟩ =>
    ⟨hbefore, p, hT p hp, hleads⟩

theorem LeadsToFile.grows {p : Path} {q : List Name} (h : d.LeadsToFile cwd p q)
    (hg : d.Grows d') : d'.LeadsToFile cwd p q := by
  obtain ⟨data, hl⟩ := h
  obtain ⟨m, hm, hk⟩ := locate_of_grows hg hl
  obtain rfl := Node.kind_eq_file_iff.mp hk
  exact ⟨data, hm⟩

/-- Making directories keeps a disk overlaid. -/
theorem Overlaid.grows (h : base.Overlaid cwd Target d) (hg : d.Grows d') :
    base.Overlaid cwd Target d' := by
  intro q
  rcases h q with hsame | ⟨hnone, hdir⟩ | ⟨hbefore, p, hp, hleads⟩
  · rcases hg q with hsame' | ⟨hnone, hdir⟩
    · exact .inl (hsame'.trans hsame)
    · exact .inr (.inl ⟨hsame.symm.trans hnone, _, hdir⟩)
  · exact .inr (.inl ⟨hnone, hg.dirAt hdir⟩)
  · exact .inr (.inr ⟨hbefore, p, hp, hleads.grows hg⟩)

/-- **Copying a file** to one of the paths keeps a disk overlaid. -/
theorem Overlaid.copyFile (h : base.Overlaid cwd Target d) {source p : Path} (hp : Target p)
    (hc : d.copyFile cwd source p = .ok d') : base.Overlaid cwd Target d' := by
  obtain ⟨place, hw, hleads⟩ := exists_written_of_copyFile hc
  intro q
  by_cases hq : q = place
  · -- what stood there in the base was no directory, as nothing but a file was replaced
    subst hq
    refine .inr (.inr ⟨?_, p, hp, hleads⟩)
    rcases h q with hsame | ⟨hnone, -⟩ | ⟨hbefore, -⟩
    · simpa [FileAt, hsame] using hw.before
    · exact .inl hnone
    · exact hbefore
  · rcases h q with hsame | ⟨hnone, hdir⟩ | ⟨hbefore, p', hp', hleads'⟩
    · exact .inl ((hw.elsewhere q hq).trans hsame)
    · exact .inr (.inl ⟨hnone, hw.dirAt hdir⟩)
    · exact .inr (.inr ⟨hbefore, p', hp', hw.leadsToFile hleads'⟩)

/-- **Copying a tree** only changes what its items lead to, but for new directories. -/
theorem overlaid_copyTree (d : Disk) (cwd : List Name) (source target : Path) :
    d.Overlaid cwd (fun p => ∃ item, .ok item ∈ d.walk cwd source ∧ item.node.isDir = false ∧
      p = target.join (Path.ofJoin item.below)) (d.copyTree cwd source target).2 :=
  copyTree_keeps (fun _ p hd => hd.grows (makeDirAll_grows _ cwd p))
    (fun item hi hdir _ _ hd hc => hd.copyFile ⟨item, hi, hdir, rfl⟩ hc) (.refl d cwd _)

/-- **A file that was there before is there still,** if nothing was copied to it, and no other is
there. -/
theorem Overlaid.file_iff (h : base.Overlaid cwd Target d) {q : List Name}
    (hq : ∀ p, Target p → ¬ d.LeadsToFile cwd p q) (data : FileData) :
    d.kindAt q = some (.file data) ↔ base.kindAt q = some (.file data) := by
  rcases h q with hsame | ⟨hnone, l, hl⟩ | ⟨-, p, hp, hleads⟩
  · rw [hsame]
  · simp [hnone, hl]
  · exact absurd hleads (hq p hp)

end

end SuiteGate.Disk
