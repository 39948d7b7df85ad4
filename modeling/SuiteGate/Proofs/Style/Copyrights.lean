import Mathlib.Data.List.Infix
import Mathlib.Tactic.Common
import SuiteGate.Proofs.Parents
import SuiteGate.Proofs.Text.Occurrences
import SuiteGate.Style.Copyrights
/-!
# Which files have their copyright header checked

A tracked file has its header checked if it is a source file by its extension, and not one of the
files that are not ours, which lie in two directories.  That a file lies in such a directory is a
question about the directories on the way to it (`TrackedPath.IsForeign`).  What is looked at is
whether the text of the directory stands anywhere in the text of the path, and it does where two
neighbouring names begin and end as the text does (`TrackedPath.TakenForForeign`).

So no file that is not ours is checked, and all source files are but for those that only look like
one that is not ours (`copyrightFiles_map_text`): a file in `lib-python/38` is never checked
(`copyrightFiles_similar`).
-/

namespace SuiteGate.Style

/-- A file in the repository: the directories on the way to it, and its name. -/
structure TrackedPath where
  dirs : List Name
  file : Name
deriving DecidableEq, Repr

/-- A directory that is known by its name and that of the directory around it. -/
structure NestedDir where
  outer : Name
  inner : Name

/-- The directories whose files are not ours, or generated. -/
def foreignDirs : List NestedDir :=
  [⟨⟨"lib-python", by decide⟩, ⟨"3", by decide⟩⟩,
    ⟨⟨"com.oracle.graal.python.test", by decide⟩, ⟨"testData", by decide⟩⟩]

/-- What stands between the separators of a directory known by two names. -/
def NestedDir.text (d : NestedDir) : String := d.outer.text ++ "/" ++ d.inner.text

theorem foreignParts_eq : foreignParts = foreignDirs.map NestedDir.text := by decide

namespace TrackedPath

/-- The names along a path. -/
def parts (p : TrackedPath) : List Name := p.dirs ++ [p.file]

/-- The path as it is listed, with separators between the names. -/
def text (p : TrackedPath) : String := (Path.ofJoin p.parts).text

/-- The file has an extension of a source file: it stands behind a dot that does not start the
name. -/
def IsSource (p : TrackedPath) : Prop :=
  ∃ e ∈ sourceExtensions, ∃ stem, stem ≠ [] ∧ p.file.text.toList = stem ++ '.' :: e.toList

/-- The file lies in a directory whose files are not ours. -/
def IsForeign (p : TrackedPath) : Prop :=
  ∃ d ∈ foreignDirs, [d.outer, d.inner] <:+: p.dirs

/-- Two neighbouring names on the path, the second of which may be that of the file, end and begin
as the names of a directory whose files are not ours. -/
def TakenForForeign (p : TrackedPath) : Prop :=
  ∃ d ∈ foreignDirs, ∃ x y, [x, y] <:+: p.parts ∧
    d.outer.text.toList <:+ x.text.toList ∧ d.inner.text.toList <+: y.text.toList

section

variable {p : TrackedPath}

theorem IsForeign.takenForForeign (h : p.IsForeign) : p.TakenForForeign := by
  obtain ⟨d, hd, hdirs⟩ := h
  have hparts : [d.outer, d.inner] <:+: p.parts :=
    hdirs.trans (List.prefix_append p.dirs [p.file]).isInfix
  exact ⟨d, hd, d.outer, d.inner, hparts, List.suffix_rfl, List.prefix_rfl⟩

/-! ### The extension -/

theorem extension?_text (p : TrackedPath) :
    Path.extension? ⟨p.text⟩ = Path.extensionOf? p.file.text := by
  have hfile : (⟨p.text⟩ : Path).fileName? = some p.file.text := by
    apply Path.fileName?_of_componentsIn
    rw [text, Path.componentsIn_ofJoin, parts, List.map_append, List.map_singleton]
  rw [Path.extension?, hfile, Option.bind_some]

theorem isSource_iff : p.IsSource ↔ ∃ e ∈ sourceExtensions, Path.extension? ⟨p.text⟩ = some e := by
  have hdots : ∀ e ∈ sourceExtensions, '.' ∉ e.toList := by decide
  refine exists_congr fun e => and_congr_right fun he => ?_
  rw [extension?_text, Path.extensionOf?_eq_some_iff, and_iff_right (hdots e he)]

instance : DecidablePred IsSource := fun p =>
  decidable_of_iff (∃ e ∈ sourceExtensions, Path.extension? ⟨p.text⟩ = some e) isSource_iff.symm

/-! ### The directories -/

instance : DecidablePred IsForeign := fun _ =>
  inferInstanceAs (Decidable (∃ d ∈ foreignDirs, _))

/-- **What the text of a directory is found in:** the paths on which two neighbouring names end and
begin as the directory does. -/
theorem contains_text_iff (d : NestedDir) :
    Text.contains p.text d.text = true ↔ ∃ x y, [x, y] <:+: p.parts ∧
      d.outer.text.toList <:+ x.text.toList ∧ d.inner.text.toList <+: y.text.toList := by
  have hparts : p.text.toList = ['/'].intercalate (p.parts.map fun x => x.text.toList) := by
    rw [text, Path.ofJoin, Text.join, String.toList_intercalate, List.map_map]
    rfl
  have hdir : d.text.toList = d.outer.text.toList ++ '/' :: d.inner.text.toList := by
    simp [NestedDir.text]
  have hslash : ∀ u ∈ p.parts.map fun x => x.text.toList, '/' ∉ u := by
    intro u hu
    obtain ⟨x, -, rfl⟩ := List.mem_map.mp hu
    exact x.slash_not_mem
  rw [Text.contains, Text.occursIn_iff, hdir, hparts,
    Text.infix_intercalate_pair_iff d.outer.slash_not_mem d.inner.slash_not_mem hslash]
  constructor
  · rintro ⟨u, v, huv, hu, hv⟩
    obtain ⟨names, hnames, hmap⟩ := List.infix_map_iff.mp huv
    rcases names with _ | ⟨x, _ | ⟨y, _ | ⟨z, names⟩⟩⟩
    all_goals simp at hmap
    obtain ⟨rfl, rfl⟩ := hmap
    exact ⟨x, y, hnames, hu, hv⟩
  · rintro ⟨x, y, hxy, hx, hy⟩
    exact ⟨x.text.toList, y.text.toList, hxy.map fun x : Name => x.text.toList, hx, hy⟩

theorem takenForForeign_iff :
    p.TakenForForeign ↔ foreignParts.any (Text.contains p.text) = true := by
  rw [foreignParts_eq, List.any_map, List.any_eq_true]
  exact exists_congr fun d => and_congr_right fun _ => (contains_text_iff d).symm

instance : DecidablePred TakenForForeign := fun _ => decidable_of_iff _ takenForForeign_iff.symm

theorem hasCopyright_text_iff : hasCopyright p.text = true ↔ p.IsSource ∧ ¬ p.TakenForForeign := by
  rw [hasCopyright, Bool.and_eq_true, and_comm, takenForForeign_iff, isSource_iff,
    Bool.not_eq_true', Bool.not_eq_true]
  refine and_congr_left fun _ => ?_
  cases Path.extension? ⟨p.text⟩ with
  | none => simp
  | some e => simp

end

end TrackedPath

/-- **The files whose headers are checked** are, in order and as often as they are listed, the source
files without those that are taken for files that are not ours.  These are the files in a directory
whose files are not ours, but not only these. -/
theorem copyrightFiles_map_text (paths : List TrackedPath) :
    copyrightFiles (paths.map TrackedPath.text) =
        (paths.filter fun p => p.IsSource ∧ ¬ p.TakenForForeign).map TrackedPath.text ∧
      ∀ p : TrackedPath, p.IsForeign → p.TakenForForeign := by
  refine ⟨?_, fun p => TrackedPath.IsForeign.takenForForeign⟩
  rw [copyrightFiles, List.filter_map]
  refine congrArg _ (List.filter_congr fun p _ => ?_)
  rw [Function.comp_apply, Bool.eq_iff_iff, TrackedPath.hasCopyright_text_iff, decide_eq_true_iff]

/-- A file in a directory whose name begins like that of one whose files are not ours. -/
def similarPath : TrackedPath :=
  ⟨[⟨"lib-python", by decide⟩, ⟨"38", by decide⟩], ⟨"os.py", by decide⟩⟩

/-- **A source file of ours is not checked.** -/
theorem copyrightFiles_similar :
    similarPath.text = "lib-python/38/os.py" ∧ similarPath.IsSource ∧ ¬ similarPath.IsForeign ∧
      copyrightFiles [similarPath.text] = [] := by
  decide +kernel

end SuiteGate.Style
