import SuiteGate.Proofs.Disk.Overlays
import SuiteGate.Proofs.Operations
/-!
# Writing a text over another

A path that leads to a file leads to it still after files were written over (`Disk.Rewritten`): all
paths lead to the same places, and only what stands there is new.  So a text that can be read can be
exchanged for another, which is what is read afterwards (`exists_textAt_of_writeFile`).
-/

namespace SuiteGate

namespace Disk

variable {d : Disk} {cwd : List Name} {p : Path}

/-- The path of a file does not ask for a directory. -/
theorem hasTrailingSlash_of_locate {place : List Name} {data : FileData}
    (h : d.locate cwd p true = .ok (place, .file data)) : p.hasTrailingSlash = false := by
  by_contra hslash
  obtain ⟨hfol, hgoal, hn, hmet⟩ := locate_eq_ok_iff.mp h
  have hf := followLinks_eq_present_iff.mpr ⟨hgoal, hn, hmet⟩
  rw [stepsOf, if_pos (by simpa using hslash)] at hf
  -- the last step stays at a directory
  obtain ⟨g, n, k, hdir, hisDir, hlast⟩ :=
    exists_dir_of_followLinks_append (List.cons_ne_nil _ _) hfol.start hf
  obtain ⟨-, hg, -⟩ := followLinks_eq_present_iff.mp hdir
  rw [followLinks_stay, followLinks_nil, hg] at hlast
  obtain ⟨rfl, rfl⟩ := Place.present.inj (Except.ok.inj hlast)
  cases hisDir

/-- A file that is found can be written. -/
theorem openForWriting_of_locate {place : List Name} {data : FileData}
    (h : d.locate cwd p true = .ok (place, .file data)) :
    d.openForWriting cwd p = .ok (place, data.executable) := by
  have hslash := hasTrailingSlash_of_locate h
  obtain ⟨hfol, hgoal, hn, hmet⟩ := locate_eq_ok_iff.mp h
  have hf := resolveSteps_eq_ok_iff.mpr ⟨hfol, followLinks_eq_present_iff.mpr ⟨hgoal, hn, hmet⟩⟩
  rw [stepsOf, hslash, if_neg (by simp), List.append_nil] at hf
  rw [openForWriting, hf]
  simp [hslash, bind, Except.bind, pure, Except.pure]

/-! ### Writing a file -/

section

variable {d' : Disk} {bytes : ByteArray}

/-- A file is written where the look-up of its path ends. -/
theorem exists_of_writeFile (h : d.writeFile cwd p bytes = .ok d') :
    ∃ place executable, d.openForWriting cwd p = .ok (place, executable) ∧
      d' = d.putFile place bytes executable := by
  rw [writeFile] at h
  obtain ⟨⟨place, executable⟩, ho, hwritten⟩ := exists_of_bind_eq_ok h
  exact ⟨place, executable, ho, (Except.ok.inj hwritten).symm⟩

/-- **What was written is read then.** -/
theorem readFile_of_writeFile (h : d.writeFile cwd p bytes = .ok d') :
    d'.readFile cwd p = .ok bytes := by
  obtain ⟨place, executable, ho, rfl⟩ := exists_of_writeFile h
  obtain ⟨-, -, found, -, hw⟩ := exists_writable_of_openForWriting ho
  obtain ⟨dir, x, rfl, hdir, hnot⟩ := hw.exists_dir
  have hkinds := @kindAt_putFile _ _ _ bytes executable hdir hnot
  obtain ⟨-, data, hl⟩ := written_of_openForWriting ho hkinds
  obtain ⟨-, -, hn, -⟩ := locate_eq_ok_iff.mp hl
  have hfile := kindAt_of_get? hn
  rw [hkinds, if_pos rfl, Option.some.injEq] at hfile
  obtain rfl := Node.file.inj (Node.kind_eq_file_iff.mp hfile.symm)
  exact readFile_eq_ok_iff.mpr ⟨_, _, hl, rfl⟩

end

/-! ### Writing over files -/

/-- Files at certain places were written over with certain contents, and nothing else changed. -/
def Rewritten (d : Disk) (Places : List Name → Prop) (Contents : ByteArray → Prop) (d' : Disk) :
    Prop :=
  ∀ q, d'.kindAt q = d.kindAt q ∨
    Places q ∧ d.FileAt q ∧ ∃ data, d'.kindAt q = some (.file data) ∧ Contents data.bytes

/-- A path leads to a file with certain contents. -/
def Reads (d : Disk) (cwd : List Name) (p : Path) (Contents : ByteArray → Prop) : Prop :=
  ∃ bytes, d.readFile cwd p = .ok bytes ∧ Contents bytes

section

variable {d' d'' : Disk} {Places Places' : List Name → Prop} {Contents Contents' : ByteArray → Prop}

theorem Rewritten.refl (d : Disk) (Places : List Name → Prop) (Contents : ByteArray → Prop) :
    d.Rewritten Places Contents d := fun _ => .inl rfl

theorem Rewritten.mono (h : d.Rewritten Places Contents d') (hP : ∀ q, Places q → Places' q)
    (hC : ∀ bytes, Contents bytes → Contents' bytes) : d.Rewritten Places' Contents' d' := by
  intro q
  refine (h q).imp_right ?_
  rintro ⟨hq, hfile, data, hdata, hbytes⟩
  exact ⟨hP q hq, hfile, data, hdata, hC _ hbytes⟩

theorem Rewritten.trans (h : d.Rewritten Places Contents d')
    (h' : d'.Rewritten Places Contents d'') : d.Rewritten Places Contents d'' := by
  intro q
  rcases h' q with hsame | ⟨hq, ⟨old, hold⟩, hnew⟩
  · rw [hsame]
    exact h q
  · refine .inr ⟨hq, ?_, hnew⟩
    rcases h q with hsame' | ⟨-, hfile, -⟩
    · exact ⟨old, hsame' ▸ hold⟩
    · exact hfile

theorem Rewritten.alike (h : d.Rewritten Places Contents d') (q : List Name) : d.Alike d' q := by
  rcases h q with hsame | ⟨-, hfile, data, hdata, -⟩
  · exact .inl hsame
  · exact .inr (.inr ⟨hfile, data, hdata⟩)

theorem Rewritten.kindAt_eq_none_iff (h : d.Rewritten Places Contents d') (q : List Name) :
    d'.kindAt q = none ↔ d.kindAt q = none := by
  rcases h q with hsame | ⟨-, ⟨old, hold⟩, data, hdata, -⟩
  · rw [hsame]
  · simp [hold, hdata]

theorem Rewritten.dirAt_iff (h : d.Rewritten Places Contents d') (q : List Name) :
    d'.DirAt q ↔ d.DirAt q := by
  rcases h q with hsame | ⟨-, ⟨old, hold⟩, data, hdata, -⟩
  · simp only [DirAt, hsame]
  · simp [DirAt, hold, hdata]

/-- All ways are the same after files were written over. -/
theorem Rewritten.wayTo_eq (h : d.Rewritten Places Contents d') (final : Bool) :
    d'.wayTo cwd final p = d.wayTo cwd final p :=
  route_eq_of_alike fun q _ => .inl (h.alike q)

/-- **Paths lead to the same places** after files were written over. -/
theorem Rewritten.exists_locate_iff (h : d.Rewritten Places Contents d') {final : Bool}
    {place : List Name} :
    (∃ n, d'.locate cwd p final = .ok (place, n)) ↔ ∃ n, d.locate cwd p final = .ok (place, n) := by
  have hfollowable : d'.Followable cwd p ↔ d.Followable cwd p :=
    ⟨fun hf => ⟨hf.noNul, hf.notEmpty, (h.dirAt_iff _).mp hf.start⟩,
      fun hf => ⟨hf.noNul, hf.notEmpty, (h.dirAt_iff _).mpr hf.start⟩⟩
  have hplace : (∃ n, d'.get? place = some n) ↔ ∃ n, d.get? place = some n := by
    have hnone := h.kindAt_eq_none_iff place
    rw [Disk.kindAt_eq_none_iff, Disk.kindAt_eq_none_iff] at hnone
    rw [← Option.ne_none_iff_exists', ← Option.ne_none_iff_exists', ne_eq, ne_eq, hnone]
  simp only [locate_eq_ok_iff, h.wayTo_eq, hfollowable, ne_eq, h.kindAt_eq_none_iff,
    exists_and_left, exists_and_right, hplace]

theorem Rewritten.pathExists_eq (h : d.Rewritten Places Contents d') :
    d'.pathExists cwd p = d.pathExists cwd p := by
  rw [Bool.eq_iff_iff, pathExists_iff, pathExists_iff]
  simp only [stat_eq_ok_iff]
  rw [exists_comm, exists_comm (β := List Name)]
  exact exists_congr fun place => h.exists_locate_iff

/-- A file that has such contents has them still after files were written over. -/
theorem Rewritten.reads (h : d.Rewritten Places Contents d') (hr : d.Reads cwd p Contents) :
    d'.Reads cwd p Contents := by
  obtain ⟨bytes, hread, hbytes⟩ := hr
  obtain ⟨place, data, hl, rfl⟩ := readFile_eq_ok_iff.mp hread
  obtain ⟨n, hl'⟩ := h.exists_locate_iff.mpr ⟨_, hl⟩
  obtain ⟨-, -, hn, -⟩ := locate_eq_ok_iff.mp hl
  obtain ⟨-, -, hn', -⟩ := locate_eq_ok_iff.mp hl'
  rcases h place with hsame | ⟨-, -, new, hnew, hnewBytes⟩
  · rw [kindAt_of_get? hn, kindAt_of_get? hn', Option.some.injEq] at hsame
    obtain rfl := Node.kind_eq_file_iff.mp hsame
    exact ⟨_, readFile_eq_ok_iff.mpr ⟨place, data, hl', rfl⟩, hbytes⟩
  · rw [kindAt_of_get? hn', Option.some.injEq] at hnew
    obtain rfl := Node.kind_eq_file_iff.mp hnew
    exact ⟨_, readFile_eq_ok_iff.mpr ⟨place, new, hl', rfl⟩, hnewBytes⟩

/-- **A file that is found can be written over,** and nothing else changes. -/
theorem exists_rewritten_of_locate {place : List Name} {data : FileData}
    (h : d.locate cwd p true = .ok (place, .file data)) (bytes : ByteArray) :
    ∃ d', d.writeFile cwd p bytes = .ok d' ∧ d'.readFile cwd p = .ok bytes ∧
      d.Rewritten (· = place) (· = bytes) d' := by
  have ho := openForWriting_of_locate h
  obtain ⟨-, -, found, -, hw⟩ := exists_writable_of_openForWriting ho
  obtain ⟨dir, x, rfl, hdir, hnot⟩ := hw.exists_dir
  have hkinds := @kindAt_putFile _ _ _ bytes data.executable hdir hnot
  obtain ⟨-, -, hn, -⟩ := locate_eq_ok_iff.mp h
  have hrewritten : d.Rewritten (· = dir ++ [x]) (· = bytes)
      (d.putFile (dir ++ [x]) bytes data.executable) := by
    intro q
    by_cases hq : q = dir ++ [x]
    · exact .inr ⟨hq, ⟨data, hq ▸ kindAt_of_get? hn⟩, _, by rw [hkinds, if_pos hq], rfl⟩
    · exact .inl (by rw [hkinds, if_neg hq])
  have hwrite : d.writeFile cwd p bytes =
      .ok (d.putFile (dir ++ [x]) bytes data.executable) := by
    rw [writeFile, ho]
    rfl
  exact ⟨_, hwrite, readFile_of_writeFile hwrite, hrewritten⟩

/-- What is written where there is something is written over a file. -/
theorem exists_locate_of_writeFile {bytes : ByteArray} (hp : d.pathExists cwd p = true)
    (h : d.writeFile cwd p bytes = .ok d') :
    ∃ place data, d.locate cwd p true = .ok (place, .file data) := by
  obtain ⟨n, hs⟩ := pathExists_iff.mp hp
  obtain ⟨place, hl⟩ := stat_eq_ok_iff.mp hs
  obtain ⟨-, hgoal, hn, hmet⟩ := locate_eq_ok_iff.mp hl
  obtain ⟨target, executable, ho, -⟩ := exists_of_writeFile h
  -- the path is followed in the same way to be read and to be written
  obtain ⟨hslash, -, found, hf, hw⟩ := exists_writable_of_openForWriting ho
  have hsteps : stepsOf p = p.steps := by simp [stepsOf, hslash]
  have hfound := followLinks_eq_present_iff.mpr ⟨hgoal, hn, hmet⟩
  rw [hsteps, hf] at hfound
  obtain rfl := Except.ok.inj hfound
  cases hw with
  | present hdata => exact ⟨_, _, hl⟩

end

/-- **A file that can be read can be written,** and what was written is read then. -/
theorem exists_readFile_of_writeFile {old : ByteArray} (h : d.readFile cwd p = .ok old)
    (bytes : ByteArray) :
    ∃ d', d.writeFile cwd p bytes = .ok d' ∧ d'.readFile cwd p = .ok bytes := by
  obtain ⟨place, data, hl, -⟩ := readFile_eq_ok_iff.mp h
  obtain ⟨d', hwrite, hread, -⟩ := exists_rewritten_of_locate hl bytes
  exact ⟨d', hwrite, hread⟩

theorem textAt_of_readFile {text : String} (h : d.readFile cwd p = .ok text.toUTF8) :
    d.textAt cwd p = .ok text := by
  simp only [textAt, h, Text.decode?_toUTF8]

/-- **A text that can be read can be exchanged,** and the new one is read then. -/
theorem exists_textAt_of_writeFile {old : String} (h : d.textAt cwd p = .ok old) (new : String) :
    ∃ d', d.writeFile cwd p new.toUTF8 = .ok d' ∧ d'.textAt cwd p = .ok new := by
  obtain ⟨bytes, hbytes⟩ : ∃ bytes, d.readFile cwd p = .ok bytes := by
    cases hread : d.readFile cwd p with
    | error e => simp [textAt, hread] at h
    | ok bytes => exact ⟨bytes, rfl⟩
  obtain ⟨d', hwrite, hread⟩ := exists_readFile_of_writeFile hbytes new.toUTF8
  exact ⟨d', hwrite, textAt_of_readFile hread⟩

end Disk

end SuiteGate
