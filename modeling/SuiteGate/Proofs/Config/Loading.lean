import SuiteGate.Config.Load
import SuiteGate.Disk.Planting
import SuiteGate.Proofs.Config.Locating
import SuiteGate.Proofs.Config.Validity
import SuiteGate.Proofs.Operations
/-!
# Which configuration is loaded

What comes of loading the configuration for a directory is what the file says that is found for it
(`run_loadConfigOrDefault`), be it an error; the defaults are only taken if there is no file.  It
says something exactly if it is a text in the right form and its configuration is accepted
(`read_eq_ok_iff`).  What a file says depends on where it is, but not on how its path is spelled
(`read_congr`).  So two directories with the same nearest level load the same configuration:
`loadConfigOrDefault_nearest` puts this together with the order in which files are looked for.
-/

namespace SuiteGate

namespace Config

/-- What a configuration file says. -/
def read (d : Disk) (cwd : List Name) (file : Path) : Except ConfigError Config :=
  match d.textAt cwd file with
  | .error e => .error (.io e)
  | .ok text =>
    match ofText file text with
    | .error e => .error e
    | .ok c =>
      match (c.rootedAt (baseDir file)).fault? with
      | some e => .error e
      | none => .ok (c.rootedAt (baseDir file))

/-- Two configurations are the same but for the spelling of the suite's directory. -/
structure Respelled (c c' : Config) : Prop where
  components : c.suite.dir.components = c'.suite.dir.components
  others : c' = { c with suite := { c.suite with dir := c'.suite.dir } }

/-- Two computations end with the same error, or with results that belong together. -/
inductive Alike {ε α : Type} (R : α → α → Prop) : Except ε α → Except ε α → Prop
  | error (e : ε) : Alike R (.error e) (.error e)
  | ok {a b : α} : R a b → Alike R (.ok a) (.ok b)

/-- Two loaded configurations are the same but for spelling, and so are the files they are from:
neither of them is made of the defaults. -/
structure SameLoad (r r' : Config × Option Path) : Prop where
  config : r.1.Respelled r'.1
  fromFile : r.2.isSome = true
  file : r.2.map Path.components = r'.2.map Path.components

/-! ### Reading a file -/

theorem ofText_settle_eq (file : Path) (text : String) :
    (ofText file text >>= settle file) =
      match ofText file text with
      | .error e => .error e
      | .ok c =>
        match (c.rootedAt (baseDir file)).fault? with
        | some e => .error e
        | none => .ok (c.rootedAt (baseDir file)) := by
  cases ofText file text with
  | error e => rfl
  | ok c =>
    change settle file c = _
    cases hfault : (c.rootedAt (baseDir file)).fault? with
    | some e => simp only [settle, validate, hfault]; rfl
    | none => simp only [settle, validate, hfault]; rfl

/-- **What is loaded from a file** is in its text, and is accepted. -/
theorem read_eq_ok_iff {d : Disk} {cwd : List Name} {file : Path} {c : Config} :
    read d cwd file = .ok c ↔ ∃ text c₀, d.textAt cwd file = .ok text ∧
      ofText file text = .ok c₀ ∧ c₀.IsAcceptable ∧ c = c₀.rootedAt (baseDir file) := by
  rw [read]
  cases d.textAt cwd file with
  | error e => simp
  | ok text =>
    cases hof : ofText file text with
    | error e => simp [hof]
    | ok c₀ =>
      have haccepted := @fault?_eq_none_iff c₀
      cases hfault : c₀.fault? with
      | some e =>
        have hnot : ¬ c₀.IsAcceptable := fun h => by simp [haccepted.mpr h] at hfault
        simp [hof, fault?_rootedAt, hfault, hnot]
      | none => simp [hof, fault?_rootedAt, hfault, haccepted.mp hfault, eq_comm]

end Config

theorem Op.run_loadConfig (file : Path) (w : World) :
    (Op.loadConfig file).run.run w =
      ((Config.read w.disk w.cwd file).mapError fun e => .error (.config e), w) := by
  rw [Op.loadConfig, Op.run_bind, Op.run_attempt, Op.run_readText, Config.read]
  cases w.disk.textAt w.cwd file with
  | error e => rfl
  | ok text =>
    simp only [Except.mapError]
    rw [Op.run_ofExcept, Config.ofText_settle_eq]
    rfl

/-- **If there is a file, what it says is loaded,** be it an error. -/
theorem Op.run_loadConfigOrDefault {dir file : Path} {w : World}
    (h : Config.find? w.disk w.cwd dir = some file) :
    (Op.loadConfigOrDefault dir).run.run w =
      (((Config.read w.disk w.cwd file).map fun c => (c, some file)).mapError
        fun e => .error (.config e), w) := by
  rw [Op.loadConfigOrDefault, Op.run_bind, Op.findConfig?, Op.run_ask, h]
  simp only [Op.run_bind, Op.run_loadConfig, Op.run_pure]
  cases Config.read w.disk w.cwd file <;> rfl

namespace Config

/-! ### Spellings of a file -/

section

variable {d : Disk} {cwd : List Name} {file file' dir dir' level level' : Path}

/-- The directory that a configuration file in a directory speaks of. -/
def home (dir : Path) : Path :=
  match dir.parent? with
  | some above => if dir.fileName?.any isSuiteDirName then above else dir
  | none => dir

theorem baseDir_eq (file : Path) : baseDir file = home (file.parent?.getD ⟨"."⟩) := by
  delta baseDir home
  generalize file.parent?.getD ⟨"."⟩ = dir
  cases h : dir.parent? <;> simp only [h]

theorem home_of_parent {above : Path} (h : dir.parent? = some above) :
    home dir = if dir.fileName?.any isSuiteDirName then above else dir := by
  delta home
  simp only [h]

theorem home_of_no_parent (h : dir.parent? = none) : home dir = dir := by
  delta home
  simp only [h]

theorem isAbsolute_eq_of_components_eq {p q : Path} (h : p.components = q.components) :
    p.isAbsolute = q.isAbsolute := by
  rw [Bool.eq_iff_iff, Path.isAbsolute_iff_mem, Path.isAbsolute_iff_mem, h]

theorem fileName?_congr {p q : Path} (h : p.components = q.components) :
    p.fileName? = q.fileName? := by
  rw [Path.fileName?, Path.fileName?, h]

/-- What can be above two spellings of a path are two spellings of one path. -/
theorem parent?_cases (habs : dir.isAbsolute = true) (h : dir.components = dir'.components) :
    (dir.parent? = none ∧ dir'.parent? = none) ∨
      ∃ above above', dir.parent? = some above ∧ dir'.parent? = some above' ∧
        above.components = above'.components ∧ above.isAbsolute = true := by
  have hmap := Path.components_parent?_congr habs
    (isAbsolute_eq_of_components_eq h ▸ habs) h
  cases hp : dir.parent? with
  | none =>
    rw [hp, Option.map_none, eq_comm, Option.map_eq_none_iff] at hmap
    exact .inl ⟨rfl, hmap⟩
  | some above =>
    rw [hp, Option.map_some, eq_comm, Option.map_eq_some_iff] at hmap
    obtain ⟨above', hp', hcomponents⟩ := hmap
    exact .inr ⟨above, above', rfl, hp', hcomponents.symm, (Path.isAbsolute_parent? hp).trans habs⟩

theorem components_home_congr (habs : dir.isAbsolute = true)
    (h : dir.components = dir'.components) : (home dir).components = (home dir').components := by
  rcases parent?_cases habs h with ⟨hp, hp'⟩ | ⟨above, above', hp, hp', habove, -⟩
  · rw [home_of_no_parent hp, home_of_no_parent hp']
    exact h
  · rw [home_of_parent hp, home_of_parent hp', fileName?_congr h]
    split
    · exact habove
    · exact h

/-- The directories that two spellings of a file speak of are spellings of one path. -/
theorem components_baseDir_congr (habs : file.isAbsolute = true)
    (h : file.components = file'.components) :
    (baseDir file).components = (baseDir file').components := by
  rw [baseDir_eq, baseDir_eq]
  rcases parent?_cases habs h with ⟨hp, hp'⟩ | ⟨above, above', hp, hp', habove, habs'⟩
  · rw [hp, hp']
  · rw [hp, hp', Option.getD_some, Option.getD_some]
    exact components_home_congr habs' habove

theorem isAbsolute_baseDir (habs : file.isAbsolute = true) (hroot : file.components ≠ [.root]) :
    (baseDir file).isAbsolute = true := by
  obtain ⟨dir, hdir⟩ : ∃ dir, file.parent? = some dir :=
    Option.ne_none_iff_exists'.mp (mt (Path.parent?_eq_none_iff habs).mp hroot)
  have hdirabs : dir.isAbsolute = true := (Path.isAbsolute_parent? hdir).trans habs
  rw [baseDir_eq, hdir, Option.getD_some]
  cases habove : dir.parent? with
  | none =>
    rw [home_of_no_parent habove]
    exact hdirabs
  | some above =>
    rw [home_of_parent habove]
    split
    · exact (Path.isAbsolute_parent? habove).trans hdirabs
    · exact hdirabs

theorem Respelled.refl (c : Config) : c.Respelled c := ⟨rfl, rfl⟩

/-- A configuration is anchored at the same directory by two spellings of it. -/
theorem respelled_rootedAt {base base' : Path} (habs : base.isAbsolute = true)
    (h : base.components = base'.components) (c : Config) :
    (c.rootedAt base).Respelled (c.rootedAt base') := by
  rw [rootedAt, rootedAt]
  split
  · next hrel =>
    have hrel : c.suite.dir.isAbsolute = false := by simpa [Path.isRelative] using hrel
    have habs' : base'.isAbsolute = true := isAbsolute_eq_of_components_eq h ▸ habs
    exact ⟨by rw [Path.components_join habs hrel, Path.components_join habs' hrel, h], rfl⟩
  · exact .refl c

theorem fault?_congr {c c' : Config} (h : c.Respelled c') : c.fault? = c'.fault? := by
  rw [h.others]
  rfl

/-- **What a file says** does not depend on how its path is spelled. -/
theorem read_congr (h : SameFile d cwd file file') :
    Alike Respelled (read d cwd file) (read d cwd file') := by
  have htext : d.textAt cwd file = d.textAt cwd file' := by
    rw [Disk.textAt, Disk.textAt, Disk.readFile, Disk.readFile, Disk.readData, Disk.readData,
      h.stat]
  have hof : ∀ text, ofText file text = ofText file' text := by
    intro text
    rw [ofText, ofText, Path.extension?, Path.extension?, fileName?_congr h.components]
  rw [read, read, htext]
  cases d.textAt cwd file' with
  | error e => exact .error _
  | ok text =>
    simp only [hof]
    cases ofText file' text with
    | error e => exact .error e
    | ok c =>
      have hbase := respelled_rootedAt (isAbsolute_baseDir h.isAbsolute h.not_root)
        (components_baseDir_congr h.isAbsolute h.components) c
      simp only [fault?_congr hbase]
      cases (c.rootedAt (baseDir file')).fault? with
      | some e => exact .error e
      | none => exact .ok hbase

/-- Two files that say the same are loaded with the same result. -/
theorem Alike.sameLoad {r r' : Except ConfigError Config} (h : Alike Respelled r r')
    (hfile : file.components = file'.components) :
    Alike SameLoad ((r.map fun c => (c, some file)).mapError fun e => Fault.error (.config e))
      ((r'.map fun c => (c, some file')).mapError fun e => Fault.error (.config e)) := by
  cases h with
  | error e => exact .error _
  | ok hc => exact .ok ⟨hc, rfl, by rw [Option.map_some, Option.map_some, hfile]⟩

/-- **A configuration is loaded** exactly if the file that is found holds one that is accepted. -/
theorem fst_loadConfigOrDefault_eq_ok_iff {w : World} (h : find? w.disk w.cwd dir = some file)
    {c : Config} {source : Option Path} :
    ((Op.loadConfigOrDefault dir).run.run w).1 = .ok (c, source) ↔
      source = some file ∧ ∃ text c₀, w.disk.textAt w.cwd file = .ok text ∧
        ofText file text = .ok c₀ ∧ c₀.IsAcceptable ∧ c = c₀.rootedAt (baseDir file) := by
  rw [Op.run_loadConfigOrDefault h, ← read_eq_ok_iff]
  cases read w.disk w.cwd file with
  | error e => simp [Except.map, Except.mapError]
  | ok c' => simp [Except.map, Except.mapError, and_comm, eq_comm]

/-- **No defaults** take the place of a file that holds no configuration which is accepted. -/
theorem loadConfigOrDefault_eq_error {w : World} (h : find? w.disk w.cwd dir = some file)
    (hnone : ¬ ∃ text c, w.disk.textAt w.cwd file = .ok text ∧ ofText file text = .ok c ∧
      c.IsAcceptable) :
    ∃ e, (Op.loadConfigOrDefault dir).run.run w = (.error (.error (.config e)), w) := by
  rw [Op.run_loadConfigOrDefault h]
  cases hread : read w.disk w.cwd file with
  | error e => exact ⟨e, rfl⟩
  | ok c =>
    obtain ⟨text, c₀, htext, hof, haccepted, -⟩ := read_eq_ok_iff.mp hread
    exact absurd ⟨text, c₀, htext, hof, haccepted⟩ hnone

/-- **From one nearest level the same configuration is loaded,** whichever directory below it the
search starts in.  The file that is found is the least candidate and does not depend on the order in
which directories are listed.  If it cannot be read as a configuration or that is not accepted, this
is an error, and never are the defaults taken then. -/
theorem loadConfigOrDefault_nearest (d : Disk) (cwd : List Name) (dir : Path) :
    (dir.isAbsolute = true → ∀ n, (level? n dir).map Path.components =
      if n < dir.components.length then
        some (dir.components.take (dir.components.length - n))
      else none) ∧
    (∀ file, find? d cwd dir = some file ↔
      ∃ n s, IsCandidate d cwd dir n s file ∧ ∀ m t other, IsCandidate d cwd dir m t other →
        n < m ∨ n = m ∧ (s = t ∨ s.Before t)) ∧
    (find? d cwd dir = none ↔ ∀ n s file, ¬ IsCandidate d cwd dir n s file) ∧
    (∀ d', d.SameTree d' → find? d' cwd dir = find? d cwd dir) ∧
    (∀ dir' level level', dir.isAbsolute = true → dir'.isAbsolute = true →
      IsNearest d cwd dir level → IsNearest d cwd dir' level' →
      level.components = level'.components →
        ∃ file file', find? d cwd dir = some file ∧ find? d cwd dir' = some file' ∧
          file.components = file'.components ∧ (level = level' → file = file') ∧
          ∀ w : World, w.disk = d → w.cwd = cwd →
            ∃ r r', (Op.loadConfigOrDefault dir).run.run w = (r, w) ∧
              (Op.loadConfigOrDefault dir').run.run w = (r', w) ∧
              Alike SameLoad r r' ∧ (level = level' → r = r')) ∧
    (∀ (w : World) file, w.disk = d → w.cwd = cwd → find? d cwd dir = some file →
      (Op.loadConfigOrDefault dir).run.run w =
        (((read d cwd file).map fun c => (c, some file)).mapError fun e => .error (.config e),
          w)) ∧
    (∀ (w : World) file, w.disk = d → w.cwd = cwd → find? d cwd dir = some file →
      (∀ c source, ((Op.loadConfigOrDefault dir).run.run w).1 = .ok (c, source) ↔
        source = some file ∧ ∃ text c₀, d.textAt cwd file = .ok text ∧
          ofText file text = .ok c₀ ∧ c₀.IsAcceptable ∧ c = c₀.rootedAt (baseDir file)) ∧
      ((¬ ∃ text c, d.textAt cwd file = .ok text ∧ ofText file text = .ok c ∧ c.IsAcceptable) →
        ∃ e, (Op.loadConfigOrDefault dir).run.run w = (.error (.error (.config e)), w))) := by
  refine ⟨fun habs => components_level? habs, fun file => find?_eq_some_iff_least,
    find?_eq_none_iff, fun d' => find?_of_sameTree, ?_, ?_, ?_⟩
  · intro dir' level level' habs habs' hnear hnear' hlevels
    obtain ⟨file, hfile⟩ := hnear.exists_first?
    obtain ⟨file', hfile', hsame⟩ :=
      first?_congr (hnear.isAbsolute habs) (hnear'.isAbsolute habs') hlevels hfile
    have hfind : find? d cwd dir = some file := find?_eq_some_iff.mpr ⟨level, hnear, hfile⟩
    have hfind' : find? d cwd dir' = some file' := find?_eq_some_iff.mpr ⟨level', hnear', hfile'⟩
    have heq : level = level' → file = file' := by
      rintro rfl
      exact Option.some.inj (hfile.symm.trans hfile')
    refine ⟨file, file', hfind, hfind', hsame.components, heq, ?_⟩
    rintro w rfl rfl
    refine ⟨_, _, Op.run_loadConfigOrDefault hfind, Op.run_loadConfigOrDefault hfind',
      (read_congr hsame).sameLoad hsame.components, ?_⟩
    intro hlevel
    rw [heq hlevel]
  · rintro w file rfl rfl hfile
    exact Op.run_loadConfigOrDefault hfile
  · rintro w file rfl rfl hfile
    exact ⟨fun c source => fst_loadConfigOrDefault_eq_ok_iff hfile,
      loadConfigOrDefault_eq_error hfile⟩

end

/-! ### Two files that are not accepted -/

/-- A directory with a configuration that is no TOML, and one with a configuration without a build
tool in a directory of the suite. -/
def faultyWorld : World :=
  World.start ((Disk.empty ⟨10⟩).plant []
    [⟨⟨"a/pymx.toml"⟩, .file "[suite\n".toUTF8 false none⟩,
      ⟨⟨"b/mx.suite/pymx.yaml"⟩, .file "suite:\n  mx: ''\n".toUTF8 false none⟩]) [] ⟨"/tmp"⟩ ∅

/-- Neither the one nor the other is replaced by the defaults. -/
theorem loadConfigOrDefault_nearest_faulty :
    find? faultyWorld.disk [] ⟨"/a"⟩ = some ⟨"/a/pymx.toml"⟩ ∧
      (∃ e, (Op.loadConfigOrDefault ⟨"/a"⟩).run.run faultyWorld =
        (.error (.error (.config e)), faultyWorld)) ∧
      find? faultyWorld.disk [] ⟨"/b"⟩ = some ⟨"/b/mx.suite/pymx.yaml"⟩ ∧
      (Op.loadConfigOrDefault ⟨"/b"⟩).run.run faultyWorld =
        (.error (.error (.config
          (.invalidValue "suite.mx" "mx executable cannot be empty"))), faultyWorld) := by
  have ha : find? faultyWorld.disk [] ⟨"/a"⟩ = some ⟨"/a/pymx.toml"⟩ := by decide +kernel
  have hb : find? faultyWorld.disk [] ⟨"/b"⟩ = some ⟨"/b/mx.suite/pymx.yaml"⟩ := by
    decide +kernel
  obtain ⟨-, -, -, -, -, -, hfaultyA⟩ := loadConfigOrDefault_nearest faultyWorld.disk [] ⟨"/a"⟩
  obtain ⟨-, -, -, -, -, hloadB, -⟩ := loadConfigOrDefault_nearest faultyWorld.disk [] ⟨"/b"⟩
  refine ⟨ha, (hfaultyA _ _ rfl rfl ha).2 ?_, hb, (hloadB _ _ rfl rfl hb).trans ?_⟩
  · rintro ⟨text, c, htext, hof, -⟩
    have hread : faultyWorld.disk.textAt [] ⟨"/a/pymx.toml"⟩ = .ok "[suite\n" := by decide +kernel
    obtain rfl : "[suite\n" = text := Except.ok.inj (hread.symm.trans htext)
    have hfails : (ofText ⟨"/a/pymx.toml"⟩ "[suite\n").isOk = false := by decide +kernel
    rw [hof] at hfails
    cases hfails
  · have htext : faultyWorld.disk.textAt [] ⟨"/b/mx.suite/pymx.yaml"⟩ =
        .ok "suite:\n  mx: ''\n" := by
      decide +kernel
    have hfault : (ofText ⟨"/b/mx.suite/pymx.yaml"⟩ "suite:\n  mx: ''\n").map fault? =
        .ok (some (.invalidValue "suite.mx" "mx executable cannot be empty")) := by
      decide +kernel
    rw [read, htext]
    rcases hof : ofText ⟨"/b/mx.suite/pymx.yaml"⟩ "suite:\n  mx: ''\n" with e | c
    · rw [hof] at hfault
      cases hfault
    · rw [hof] at hfault
      have hmx : c.fault? = some (.invalidValue "suite.mx" "mx executable cannot be empty") :=
        Except.ok.inj hfault
      simp only [hof, fault?_rootedAt, hmx]
      rfl

end Config

end SuiteGate
