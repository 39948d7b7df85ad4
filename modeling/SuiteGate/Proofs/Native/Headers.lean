import SuiteGate.Proofs.Disk.Relaying
import SuiteGate.Proofs.Native.Rebuild
/-!
# The staged headers

The headers are staged by laying their directory anew (`run_stageHeaders_iff`): the headers of the
project are copied there, and over them the extra headers, each under its name.  The headline is
`stageHeaders_overlay`: whatever was there before, the directory then holds exactly these, and
staging them again leads to the same tree.

The path to the directory has to find what stands there.  Where it leads nowhere because a directory
on its way is missing, nothing is removed, and an old header is there again when that directory was
made (`staged_beside_old`).
-/

namespace SuiteGate.Capi

open Disk

/-- The headers of the project. -/
def projectHeaders (s : Suite) : Path :=
  s.config.capiSource.child "include"

/-- The extra headers. -/
def extraHeaders (s : Suite) : List Path :=
  s.config.capi.extraHeaders.map s.path

/-- **Staging the headers** lays their directory anew. -/
theorem run_stageHeaders_iff {s : Suite} {w w' : World} :
    (stageHeaders s).run.run w = (.ok (), w') ↔
      ∃ d, w.disk.Relaid w.cwd (projectHeaders s) s.config.capiHeaders (extraHeaders s) d ∧
        w' = { w with disk := d } := by
  have hrun : (stageHeaders s).run.run w =
      ((Op.removeTree s.config.capiHeaders >>= fun _ =>
        discard (Op.copyTree (projectHeaders s) s.config.capiHeaders) >>= fun _ =>
          Op.copyAllInto (extraHeaders s) s.config.capiHeaders).run.run w) := rfl
  rw [hrun, Op.run_bind, Op.removeTree, Op.run_changePartly]
  rcases hremoved : w.disk.removeTree w.cwd s.config.capiHeaders with ⟨e | u, b⟩
  · exact iff_of_false (fun h => by cases h) (by simp [Relaid, hremoved])
  simp only [Except.mapError, Op.run_bind, Op.run_discard_copyTree]
  rcases hcopied : b.copyTree w.cwd (projectHeaders s) s.config.capiHeaders with ⟨e | n, c⟩
  · exact iff_of_false (fun h => by cases h) (by simp [Relaid, hremoved, hcopied])
  simp only [Except.map, run_copyAllInto]
  rcases hfiles : copyAllInto w.cwd s.config.capiHeaders (extraHeaders s) c with ⟨e | u, d⟩
  · exact iff_of_false (fun h => by cases h) (by simp [Relaid, hremoved, hcopied, hfiles])
  constructor
  · exact fun h => ⟨d, ⟨n, b, c, hremoved, hcopied, hfiles⟩, (Prod.mk.inj h).2.symm⟩
  · rintro ⟨d', ⟨n', b', c', hremoved', hcopied', hfiles'⟩, rfl⟩
    obtain ⟨-, rfl⟩ := Prod.mk.inj (hremoved.symm.trans hremoved')
    obtain ⟨-, rfl⟩ := Prod.mk.inj (hcopied.symm.trans hcopied')
    obtain ⟨-, rfl⟩ := Prod.mk.inj (hfiles.symm.trans hfiles')
    rfl

/-- **The staged headers are exactly those of the project and the extra ones.**  If the headers are
sought outside of the directory to which they are staged, and they are staged, then the directory
holds a copy of each of them, an extra header instead of one of the project that has the same path,
and a later extra header instead of an earlier one of the same name, and no other file or link.
Nothing else is changed but for new directories, and staging them again leads to the same tree. -/
theorem stageHeaders_overlay (s : Suite) (w w' : World) (above : List Name) (x : Name)
    (hsourced : w.disk.Sourced w.cwd (projectHeaders s) s.config.capiHeaders (extraHeaders s)
      above x)
    (hok : (stageHeaders s).run.run w = (.ok (), w')) :
    w' = { w with disk := w'.disk } ∧
      w.disk.Laid w.cwd (projectHeaders s) s.config.capiHeaders (extraHeaders s) (above ++ [x])
        w'.disk ∧
      ∃ d, (stageHeaders s).run.run w' = (.ok (), { w' with disk := d }) ∧
        d.shape = w'.disk.shape := by
  obtain ⟨d, hrelaid, rfl⟩ := run_stageHeaders_iff.mp hok
  obtain ⟨d', hagain, hshape⟩ := hrelaid.again hsourced
  exact ⟨rfl, hrelaid.laid hsourced, d', run_stageHeaders_iff.mpr ⟨d', hagain, rfl⟩, hshape⟩

/-! ### A small project -/

/-- A suite at the root of the disk, with an extra header. -/
def headerSuite (headers : Path) : Suite :=
  { config :=
      { suite := { dir := ⟨"/"⟩ }
        capi := { sourceDir := ⟨"s"⟩, headersDir := headers, outputDir := ⟨"o"⟩,
                  extraHeaders := [⟨"x/a.h"⟩] } } }

/-- Two headers of the project, an extra one that has the name of one of them, and an old one. -/
def headerWorld : World :=
  World.start ((Disk.empty ⟨10⟩).plant []
    [⟨⟨"s/include/a.h"⟩, .file "project".toUTF8 false none⟩,
      ⟨⟨"s/include/sub/b.h"⟩, .file "project".toUTF8 false none⟩,
      ⟨⟨"x/a.h"⟩, .file "extra".toUTF8 false none⟩,
      ⟨⟨"h/old.h"⟩, .file "old".toUTF8 false none⟩]) [] ⟨"/tmp"⟩ ∅

theorem stageHeaders_overlay_small :
    let s := headerSuite ⟨"h"⟩
    ∃ w', (stageHeaders s).run.run headerWorld = (.ok (), w') ∧
      w'.disk.readFile [] ⟨"/h/a.h"⟩ = .ok "extra".toUTF8 ∧
      w'.disk.readFile [] ⟨"/h/sub/b.h"⟩ = .ok "project".toUTF8 ∧
      w'.disk.pathExists [] ⟨"/h/old.h"⟩ = false ∧
      headerWorld.disk.Laid [] (projectHeaders s) s.config.capiHeaders (extraHeaders s)
        [⟨"h", by decide⟩] w'.disk ∧
      ∃ d, (stageHeaders s).run.run w' = (.ok (), { w' with disk := d }) ∧
        d.shape = w'.disk.shape := by
  intro s
  have hsourced : headerWorld.disk.Sourced headerWorld.cwd (projectHeaders s)
      s.config.capiHeaders (extraHeaders s) [] ⟨"h", by decide⟩ := by
    have hlinks : headerWorld.disk.linkFree headerWorld.cwd (projectHeaders s) = true := by
      decide +kernel
    refine ⟨by decide +kernel, by decide +kernel, by decide +kernel, fun rel n hr hlink => ?_,
      by decide +kernel⟩
    cases hlink.symm.trans (isLink_of_linkFree hlinks hr)
  obtain ⟨hok, ha, hb, hold⟩ : ((stageHeaders s).run.run headerWorld).1 = .ok () ∧
      ((stageHeaders s).run.run headerWorld).2.disk.readFile [] ⟨"/h/a.h"⟩ = .ok "extra".toUTF8 ∧
      ((stageHeaders s).run.run headerWorld).2.disk.readFile [] ⟨"/h/sub/b.h"⟩ =
        .ok "project".toUTF8 ∧
      ((stageHeaders s).run.run headerWorld).2.disk.pathExists [] ⟨"/h/old.h"⟩ = false := by
    decide +kernel
  rcases hrun : (stageHeaders s).run.run headerWorld with ⟨r, w'⟩
  rw [hrun] at hok ha hb hold
  obtain rfl : r = .ok () := hok
  obtain ⟨-, hlaid, hagain⟩ :=
    stageHeaders_overlay s headerWorld w' [] ⟨"h", by decide⟩ hsourced hrun
  exact ⟨w', rfl, ha, hb, hold, hlaid, hagain⟩

/-- **A path that leads nowhere does not do.**  The directory of headers is not found, as a
directory on the way to it is missing, so nothing is removed.  When the missing directory was made,
the old header is there, until the headers are staged once more. -/
theorem staged_beside_old :
    let s := headerSuite ⟨"gone/../h"⟩
    let first := (stageHeaders s).run.run headerWorld
    let second := (stageHeaders s).run.run first.2
    let old := s.config.capiHeaders.child "old.h"
    headerWorld.disk.pathExists [] ((projectHeaders s).child "old.h") = false ∧
      (∀ p ∈ extraHeaders s, p.fileName? ≠ some "old.h") ∧
      first.1 = .ok () ∧ first.2.disk.isFile [] old = true ∧
      second.1 = .ok () ∧ second.2.disk.pathExists [] old = false := by
  decide +kernel

end SuiteGate.Capi
