import SuiteGate.Proofs.Disk.Relaying
import SuiteGate.Proofs.Imports.Overlays
import SuiteGate.Proofs.Imports.Updates
/-!
# What the stages of an update leave behind

A stage that ends without an error has done its work (`Stage.Done`, `Stage.done_of_run`), whatever
programs do to the disk meanwhile.  Each file for the overlays names the commit that was printed
for it.  A round leaves the printed commit as the version of its import.  The headers stand in
their directory under their names (`HeadersCopied.stands`), each with what was in it when it was
copied; of several that are copied to one place the last one stays.
-/

namespace SuiteGate.Imports

open Disk

/-! ### Headers -/

/-- A header that was copied into a directory: where it comes from, its name, where its copy was
put, and what the copy holds. -/
structure HeaderCopy where
  source : Path
  name : Name
  place : List Name
  bytes : ByteArray

/-- A header is copied into a directory, which may have to be made.  Then it stands there under its
name with what it held, and a header that is that file itself ends empty. -/
structure HeaderCopy.Made (cwd : List Name) (dir : Path) (c : HeaderCopy) (d d' : Disk) :
    Prop where
  named : c.source.fileName? = some c.name.text
  read : ∃ d₁ original data, d.Grows d₁ ∧ d₁.Written c.place d' ∧
    d₁.locate cwd c.source true = .ok (original, .file data) ∧
    c.bytes = if c.place = original then ByteArray.empty else data.bytes
  stands : ∃ data, d'.locate cwd (dir.child c.name.text) true = .ok (c.place, .file data) ∧
    data.bytes = c.bytes

/-- Headers are copied into a directory, one after the other. -/
inductive HeadersCopied (cwd : List Name) (dir : Path) : List HeaderCopy → Disk → Disk → Prop
  | nil {d : Disk} : HeadersCopied cwd dir [] d d
  | cons {c : HeaderCopy} {cs : List HeaderCopy} {d d₁ d' : Disk} :
      c.Made cwd dir d d₁ → HeadersCopied cwd dir cs d₁ d' → HeadersCopied cwd dir (c :: cs) d d'

section

variable {d d' : Disk} {cwd q : List Name} {dir p : Path} {c : HeaderCopy} {cs : List HeaderCopy}

theorem exists_made_of_copyInto {file : Path} (h : d.copyInto cwd file dir = (.ok (), d')) :
    ∃ c : HeaderCopy, c.source = file ∧ c.Made cwd dir d d' := by
  obtain ⟨x, hname, hcopy⟩ := copyInto_eq_ok h
  obtain ⟨original, data, place, executable, hsource, ho, rfl⟩ := exists_of_copyFile hcopy
  obtain ⟨-, -, found, -, hw⟩ := exists_writable_of_openForWriting ho
  obtain ⟨above, y, rfl, habove, hnot⟩ := hw.exists_dir
  have hkinds := @kindAt_putFile _ _ _
    (if above ++ [y] = original then ByteArray.empty else data.bytes) data.executable habove hnot
  obtain ⟨hwritten, copy, hl⟩ := written_of_openForWriting ho hkinds
  obtain ⟨-, -, hn, -⟩ := locate_eq_ok_iff.mp hl
  have hcopied := kindAt_of_get? hn
  rw [hkinds, if_pos rfl, Option.some.injEq] at hcopied
  obtain rfl := Node.file.inj (Node.kind_eq_file_iff.mp hcopied.symm)
  exact ⟨⟨file, x, above ++ [y], _⟩, rfl, hname,
    ⟨_, original, data, makeDirAll_grows d cwd dir, hwritten, hsource, rfl⟩, _, hl, rfl⟩

/-- **A file that is found** is found there after a header was copied, with what it held or, if it
is the copy, with what the header held. -/
theorem HeaderCopy.Made.keeps (h : c.Made cwd dir d d') {data : FileData}
    (hl : d.locate cwd p true = .ok (q, .file data)) :
    ∃ data', d'.locate cwd p true = .ok (q, .file data') ∧
      (data'.bytes = data.bytes ∨ c.place = q ∧ data'.bytes = c.bytes) := by
  obtain ⟨d₁, -, -, hgrows, hwritten, -⟩ := h.read
  obtain ⟨m, hl₁, hkind⟩ := locate_of_grows hgrows hl
  obtain rfl := Node.kind_eq_file_iff.mp hkind
  obtain ⟨data', hl'⟩ := hwritten.leadsToFile ⟨data, hl₁⟩
  obtain ⟨-, -, hn₁, -⟩ := locate_eq_ok_iff.mp hl₁
  obtain ⟨-, -, hn', -⟩ := locate_eq_ok_iff.mp hl'
  refine ⟨data', hl', ?_⟩
  by_cases hq : q = c.place
  · subst hq
    obtain ⟨copy, hcopy, hbytes⟩ := h.stands
    obtain ⟨-, -, hn, -⟩ := locate_eq_ok_iff.mp hcopy
    obtain rfl := Node.file.inj (Option.some.inj (hn'.symm.trans hn))
    exact .inr ⟨rfl, hbytes⟩
  · have hsame := hwritten.elsewhere q hq
    rw [kindAt_of_get? hn', kindAt_of_get? hn₁, Option.some.injEq] at hsame
    obtain rfl := Node.file.inj (Node.kind_eq_file_iff.mp hsame)
    exact .inl rfl

theorem HeadersCopied.keeps (h : HeadersCopied cwd dir cs d d') {data : FileData}
    (hl : d.locate cwd p true = .ok (q, .file data)) :
    ∃ data', d'.locate cwd p true = .ok (q, .file data') ∧
      (data'.bytes = data.bytes ∨ ∃ c ∈ cs, c.place = q ∧ data'.bytes = c.bytes) := by
  induction h generalizing data with
  | nil => exact ⟨data, hl, .inl rfl⟩
  | @cons c cs d d₁ d' hmade _ ih =>
    obtain ⟨data₁, hl₁, hbytes₁⟩ := hmade.keeps hl
    obtain ⟨data', hl', hsame | ⟨c', hc', hplace, hbytes⟩⟩ := ih hl₁
    · refine ⟨data', hl', hbytes₁.imp hsame.trans fun ⟨hplace, hbytes⟩ => ?_⟩
      exact ⟨c, List.mem_cons_self .., hplace, hsame.trans hbytes⟩
    · exact ⟨data', hl', .inr ⟨c', List.mem_cons_of_mem _ hc', hplace, hbytes⟩⟩

/-- **All headers stand in the directory** in the end, each with what was copied to its place
last. -/
theorem HeadersCopied.stands (h : HeadersCopied cwd dir cs d d') : ∀ c ∈ cs,
    ∃ data, d'.locate cwd (dir.child c.name.text) true = .ok (c.place, .file data) ∧
      ∃ last ∈ cs, last.place = c.place ∧ data.bytes = last.bytes := by
  induction h with
  | nil => simp
  | @cons c cs d d₁ d' hmade hrest ih =>
    intro c' hc'
    rcases List.mem_cons.mp hc' with rfl | hlater
    · obtain ⟨data₁, hl₁, hbytes₁⟩ := hmade.stands
      obtain ⟨data, hl, hsame | ⟨last, hlast, hplace, hbytes⟩⟩ := hrest.keeps hl₁
      · exact ⟨data, hl, c', List.mem_cons_self .., rfl, hsame.trans hbytes₁⟩
      · exact ⟨data, hl, last, List.mem_cons_of_mem _ hlast, hplace, hbytes⟩
    · obtain ⟨data, hl, last, hlast, hplace, hbytes⟩ := ih c' hlater
      exact ⟨data, hl, last, List.mem_cons_of_mem _ hlast, hplace, hbytes⟩

theorem exists_headersCopied {files : List Path}
    (h : copyAllInto cwd dir files d = (.ok (), d')) :
    ∃ cs, cs.map HeaderCopy.source = files ∧ HeadersCopied cwd dir cs d d' := by
  induction files generalizing d with
  | nil =>
    obtain ⟨-, rfl⟩ := Prod.mk.inj h
    exact ⟨[], rfl, .nil⟩
  | cons file files ih =>
    rw [copyAllInto] at h
    rcases hcopied : d.copyInto cwd file dir with ⟨e | u, d₁⟩
    · rw [hcopied] at h
      cases h
    · rw [hcopied] at h
      obtain ⟨c, rfl, hmade⟩ := exists_made_of_copyInto hcopied
      obtain ⟨cs, rfl, hrest⟩ := ih h
      exact ⟨c :: cs, rfl, .cons hmade hrest⟩

end

/-! ### Overlays -/

/-- The overlays are asked for and named in one checkout after the other, but for those without a
file for them. -/
inductive OverlaysNamed (runner : Runner) (s : Suite) (parent : Path) :
    List Path → World → World → Prop
  | nil {w : World} : OverlaysNamed runner s parent [] w w
  | skip {dir : Path} {dirs : List Path} {w w' : World} :
      w.disk.pathExists w.cwd (dir.child "ci.jsonnet") = false →
      OverlaysNamed runner s parent dirs w w' → OverlaysNamed runner s parent (dir :: dirs) w w'
  | write {dir : Path} {dirs : List Path} {w v w' : World} {tip : String} :
      w.disk.pathExists w.cwd (dir.child "ci.jsonnet") = true →
      overlayTip? runner s parent w = some tip →
      v.disk.textAt v.cwd (dir.child "ci.jsonnet") =
        .ok ("\x7b overlay: \"" ++ tip ++ "\" \x7d\n") →
      OverlaysNamed runner s parent dirs v w' → OverlaysNamed runner s parent (dir :: dirs) w w'

/-- A text that was written is read then. -/
theorem textAt_of_writeText {p : Path} {text : String} {w w' : World}
    (h : (Op.writeText p text).run.run w = (.ok (), w')) :
    w'.disk.textAt w'.cwd p = .ok text := by
  rw [Op.run_writeText] at h
  cases hwrite : w.disk.writeFile w.cwd p text.toUTF8 with
  | error e =>
    rw [hwrite] at h
    cases h
  | ok disk =>
    rw [hwrite] at h
    obtain ⟨-, rfl⟩ := Prod.mk.inj h
    exact textAt_of_readFile (readFile_of_writeFile hwrite)

theorem overlaysNamed_of_run {runner : Runner} {s : Suite} {parent : Path} {dirs : List Path}
    {w w' : World} (h : (dirs.forM (updateOverlay runner s parent)).run.run w = (.ok (), w')) :
    OverlaysNamed runner s parent dirs w w' := by
  induction dirs generalizing w with
  | nil =>
    obtain ⟨-, rfl⟩ := Prod.mk.inj h
    exact .nil
  | cons dir dirs ih =>
    obtain ⟨v, hdir, hdirs⟩ := Op.exists_of_run_forM_cons h
    rcases updateOverlay_cases runner s parent dir w with
      ⟨hfile, hcase⟩ | ⟨-, -, hcase⟩ | ⟨hfile, -, ⟨e, -, hcase⟩ | ⟨tip, htip, hcase⟩⟩
    · cases hcase.symm.trans hdir
      exact .skip hfile (ih hdirs)
    · cases hcase.symm.trans hdir
    · cases hcase.symm.trans hdir
    · exact .write hfile htip (textAt_of_writeText (hcase.symm.trans hdir)) (ih hdirs)

/-! ### Rounds -/

section

variable {runner : Runner} {s : Suite} {w w' : World}

/-- What was recorded is the version of the import, if it is written like one. -/
theorem exists_textAt_of_record {name tip : String}
    (h : (record s name tip).run.run w = (.ok (), w')) :
    ∃ text, w'.disk.textAt w'.cwd (suiteFile s) = .ok text ∧
      (IsVersion tip.toList → version? text name = some tip) := by
  cases htext : w.disk.textAt w.cwd (suiteFile s) with
  | error e =>
    simp only [record, Op.run_bind, Op.run_readText, htext, Except.mapError] at h
    cases h
  | ok text =>
    have hrecord := run_record name tip htext
    cases hexchange : exchange text name tip with
    | error e =>
      rw [hexchange] at hrecord
      cases hrecord.symm.trans h
    | ok updated =>
      rw [hexchange] at hrecord
      obtain ⟨d, hd, hread, -⟩ := hrecord
      obtain ⟨-, rfl⟩ := Prod.mk.inj (h.symm.trans hd)
      exact ⟨updated, hread, fun htip => version?_exchange_self htip hexchange⟩

theorem updateImport_eq_ok {name revision tip : String}
    (h : (updateImport runner s name revision).run.run w = (.ok tip, w')) :
    ∃ dir, s.config.imports.checkouts[name]? = some dir ∧
      Printed runner s.git (s.path dir) tip ∧
      ∃ text, w'.disk.textAt w'.cwd (suiteFile s) = .ok text ∧
        (IsVersion tip.toList → version? text name = some tip) := by
  rw [updateImport_eq] at h
  obtain ⟨_, _, hcheckout, hround⟩ := Op.exists_of_run_bind h
  obtain ⟨dir, hdir, rfl, rfl⟩ := exists_of_run_checkoutOf hcheckout
  obtain ⟨_, _, hfetch, hlast⟩ := Op.exists_of_run_bind hround
  obtain ⟨_, _, hrecord, hresult⟩ := Op.exists_of_run_bind hlast
  cases hresult
  exact ⟨dir, hdir, printed_of_fetch hfetch, exists_textAt_of_record hrecord⟩

theorem exists_of_run_copyHeaders (h : (copyHeaders s).run.run w = (.ok (), w')) :
    ∃ dir cs, s.config.imports.checkouts["sulong"]? = some dir ∧
      cs.map HeaderCopy.source = s.config.imports.sulongHeaders.map (s.path dir).join ∧
      HeadersCopied w.cwd (s.config.capiSource.child "include") cs w.disk w'.disk := by
  rw [copyHeaders] at h
  obtain ⟨_, _, hcheckout, hcopies⟩ := Op.exists_of_run_bind h
  obtain ⟨dir, hdir, rfl, rfl⟩ := exists_of_run_checkoutOf hcheckout
  rw [run_copyAllInto] at hcopies
  rcases hfiles : copyAllInto w.cwd (s.config.capiSource.child "include")
    (s.config.imports.sulongHeaders.map (s.path dir).join) w.disk with ⟨e | u, disk⟩
  · rw [hfiles] at hcopies
    cases hcopies
  · rw [hfiles] at hcopies
    obtain ⟨-, rfl⟩ := Prod.mk.inj hcopies
    obtain ⟨cs, hcs, hcopied⟩ := exists_headersCopied hfiles
    exact ⟨dir, cs, hdir, hcs, hcopied⟩

end

/-! ### Stages -/

/-- What a stage that ended without an error has done between two worlds. -/
def Stage.Done (runner : Runner) (s : Suite) (w w' : World) : Stage → Prop
  | overlays => ∃ parent dirs, s.dir.parent? = some parent ∧
      (∀ dir ∈ dirs, ∃ x, IsCheckout x ∧ dir = parent.child x.text) ∧
      (∀ x, IsCheckout x → w.disk.pathExists w.cwd (overlayPath parent x) = true →
        parent.child x.text ∈ dirs) ∧ OverlaysNamed runner s parent dirs w w'
  | round name => ∃ dir tip text, s.config.imports.checkouts[name]? = some dir ∧
      Printed runner s.git (s.path dir) tip ∧
      w'.disk.textAt w'.cwd (s.path s.config.imports.suiteFile) = .ok text ∧
      (IsVersion tip.toList → version? text name = some tip)
  | headers => ∃ dir cs, s.config.imports.checkouts["sulong"]? = some dir ∧
      cs.map HeaderCopy.source = s.config.imports.sulongHeaders.map (s.path dir).join ∧
      HeadersCopied w.cwd (s.config.capiSource.child "include") cs w.disk w'.disk ∧
      ∀ c ∈ cs, ∃ data, w'.disk.locate w.cwd
          ((s.config.capiSource.child "include").child c.name.text) true =
            .ok (c.place, .file data) ∧
        ∃ last ∈ cs, last.place = c.place ∧ data.bytes = last.bytes

/-- **A stage that ends without an error has done its work.** -/
theorem Stage.done_of_run {runner : Runner} {s : Suite} {w w' : World} {stage : Stage}
    (h : (stage.op runner s).run.run w = (.ok (), w')) : stage.Done runner s w w' := by
  cases stage with
  | overlays =>
    rw [Stage.op] at h
    cases hparent : s.dir.parent? with
    | none =>
      simp only [updateOverlays, hparent] at h
      cases h
    | some parent =>
      rw [run_updateOverlays hparent] at h
      cases hdirs : siblings w.disk w.cwd parent with
      | error e =>
        rw [hdirs] at h
        cases h
      | ok dirs =>
        rw [hdirs] at h
        exact ⟨parent, dirs, hparent, fun dir => exists_of_mem_siblings hdirs,
          fun x => mem_siblings hdirs, overlaysNamed_of_run h⟩
  | round name =>
    obtain ⟨tip, v, hround, hresult⟩ := Op.exists_of_run_bind h
    obtain ⟨-, rfl⟩ := Prod.mk.inj hresult
    obtain ⟨dir, hdir, hprinted, text, htext, hversion⟩ := updateImport_eq_ok hround
    exact ⟨dir, tip, text, hdir, hprinted, htext, hversion⟩
  | headers =>
    obtain ⟨dir, cs, hdir, hcs, hcopied⟩ := exists_of_run_copyHeaders h
    exact ⟨dir, cs, hdir, hcs, hcopied, hcopied.stands⟩

end SuiteGate.Imports
