import SuiteGate.Proofs.Python.Launches
/-!
# The arguments of a launch

The arguments of a run are shared out twice: between the virtual machine and the launcher
(`Divided`), and those of the launcher between the class path and the program (`Parted`).  Both
relations say that nothing is lost, doubled or put elsewhere, and the functions that share out are
determined by them (`divided_iff`, `parted_iff`).  The headline is `assemble_arguments`: where each
argument is found in the two invocations of an assembled launch.
-/

namespace SuiteGate.Python

/-! ### Sharing out -/

/-- Arguments shared out in their order: of one that starts with a mark, what follows the mark is
taken, and one that starts with no mark is left. -/
inductive Parted (marks : List String) : List String → List String → List String → Prop
  | nil : Parted marks [] [] []
  | taken {mark rest : String} {args taken left : List String} : mark ∈ marks →
    Parted marks args taken left → Parted marks ((mark ++ rest) :: args) (rest :: taken) left
  | left {arg : String} {args taken left : List String} :
    (∀ mark ∈ marks, ∀ rest, arg ≠ mark ++ rest) →
    Parted marks args taken left → Parted marks (arg :: args) taken (arg :: left)

/-- Arguments divided between the virtual machine and the launcher, at the first separator, or by
the marks of each argument if there is no separator. -/
inductive Divided : List String → List String → List String → Prop
  | separated {before after : List String} : "--" ∉ before →
    Divided (before ++ "--" :: after) before after
  | marked {args given rest : List String} : "--" ∉ args → Parted ["-J", "@"] args given rest →
    Divided args given rest

theorem afterPrefix?_eq_some_iff {pre s rest : String} :
    Text.afterPrefix? pre s = some rest ↔ s = pre ++ rest := by
  simp only [Text.afterPrefix?, Option.map_eq_some_iff, Text.dropPrefix?_eq_some_iff]
  constructor
  · rintro ⟨cs, hs, rfl⟩
    rw [← String.toList_inj, hs, String.toList_append, String.toList_ofList]
  · rintro rfl
    exact ⟨rest.toList, String.toList_append, String.ofList_toList⟩

/-- **Sharing out by marks** with a function that reads them. -/
theorem parted_iff {marks : List String} {read? : String → Option String}
    (hread : ∀ arg rest, read? arg = some rest ↔ ∃ mark ∈ marks, arg = mark ++ rest)
    {args taken left : List String} :
    Parted marks args taken left ↔
      taken = args.filterMap read? ∧ left = args.filter fun a => (read? a).isNone := by
  have hnone : ∀ arg, read? arg = none ↔ ∀ mark ∈ marks, ∀ rest, arg ≠ mark ++ rest := by
    intro arg
    rw [Option.eq_none_iff_forall_ne_some]
    simp only [ne_eq, hread]
    grind
  constructor
  · -- the function reads an argument exactly where the relation takes what follows the mark
    intro h
    induction h with
    | nil => simp
    | @taken mark rest _ _ _ hmark _ ih =>
      have hsome := (hread (mark ++ rest) rest).mpr ⟨mark, hmark, rfl⟩
      simp [hsome, ih]
    | left hunmarked _ ih =>
      have hleft := (hnone _).mpr hunmarked
      simp [hleft, ih]
  · rintro ⟨rfl, rfl⟩
    induction args with
    | nil => exact .nil
    | cons arg args ih =>
      cases harg : read? arg with
      | none =>
        rw [List.filterMap_cons_none harg, List.filter_cons_of_pos (by simp [harg])]
        exact .left ((hnone arg).mp harg) ih
      | some rest =>
        obtain ⟨mark, hmark, rfl⟩ := (hread arg rest).mp harg
        rw [List.filterMap_cons_some harg, List.filter_cons_of_neg (by simp [harg])]
        exact .taken hmark ih

theorem vmArg?_eq_some_iff (arg rest : String) :
    vmArg? arg = some rest ↔ ∃ mark ∈ ["-J", "@"], arg = mark ++ rest := by
  -- no argument has both marks
  have hapart : ∀ x y : String, "-J" ++ x ≠ "@" ++ y := fun x y h => by
    have := congrArg String.toList h
    simp [String.toList_append] at this
  simp only [vmArg?, Option.or_eq_some_iff, Option.eq_none_iff_forall_ne_some,
    afterPrefix?_eq_some_iff, List.mem_cons, List.not_mem_nil, or_false, exists_eq_or_imp,
    exists_eq_left]
  constructor
  · rintro (h | ⟨-, h⟩)
    · exact .inl h
    · exact .inr h
  · rintro (h | rfl)
    · exact .inl h
    · exact .inr ⟨fun x h => hapart x rest (afterPrefix?_eq_some_iff.mp h).symm, rfl⟩

theorem distribution?_eq_some_iff (arg rest : String) :
    distribution? arg = some rest ↔ ∃ mark ∈ ["-add-dist="], arg = mark ++ rest := by
  simp [distribution?, afterPrefix?_eq_some_iff]

theorem splitVmArgs_separated {before after : List String} (h : "--" ∉ before) :
    splitVmArgs (before ++ "--" :: after) = (before, after) := by
  have hall : ∀ arg ∈ before, decide (arg ≠ "--") = true := fun arg harg =>
    decide_eq_true fun heq => h (heq ▸ harg)
  rw [splitVmArgs, separator, if_pos (by simp), List.takeWhile_append_of_pos hall,
    List.dropWhile_append_of_pos hall]
  simp

/-- **Dividing the arguments** of a run. -/
theorem divided_iff {args given rest : List String} :
    Divided args given rest ↔ splitVmArgs args = (given, rest) := by
  constructor
  · intro h
    cases h with
    | separated hbefore => exact splitVmArgs_separated hbefore
    | marked hargs hparted =>
      obtain ⟨rfl, rfl⟩ := (parted_iff vmArg?_eq_some_iff).mp hparted
      rw [splitVmArgs, separator, if_neg (by simpa using hargs)]
  · intro h
    by_cases hargs : "--" ∈ args
    · obtain ⟨before, after, rfl, hbefore⟩ := List.eq_append_cons_of_mem hargs
      rw [splitVmArgs_separated hbefore] at h
      obtain ⟨rfl, rfl⟩ := Prod.mk.inj h
      exact .separated hbefore
    · rw [splitVmArgs, separator, if_neg (by simpa using hargs)] at h
      obtain ⟨rfl, rfl⟩ := Prod.mk.inj h
      exact .marked hargs ((parted_iff vmArg?_eq_some_iff).mpr ⟨rfl, rfl⟩)

theorem parted_takeDistributions (rest : List String) :
    Parted ["-add-dist="] rest (takeDistributions rest).2 (takeDistributions rest).1 :=
  (parted_iff distribution?_eq_some_iff).mpr ⟨rfl, rfl⟩

/-! ### Where the arguments are found -/

theorem launchQuery_eq (s : Suite) (args : List String) (options : RunOptions) :
    launchQuery s args options =
      ⟨s.config.suite.mx, ["classpath", Text.join "," (s.config.python.distributions
        ++ (takeDistributions (splitVmArgs args).2).2 ++ options.extraDistributions)],
        some s.dir, Overrides.empty, .capture⟩ := by
  rw [launchQuery, BuildTool.classpathQuery, BuildTool.invocation, Invocation.extendEnv]
  simp [Suite.buildTool, BuildTool.importArgs, Invocation.of, Invocation.inDir,
    Invocation.withArgs, Invocation.captured, Overrides.empty_extend]

theorem startsWith_iff {s pre : String} :
    Text.startsWith s pre = true ↔ pre.toList <+: s.toList :=
  List.isPrefixOf_iff_prefix

theorem launcherArgs_eq (s : Suite) (l : List String) (stacktrace : Bool) :
    launcherArgs s l stacktrace =
      ["--experimental-options=true"] ++
        (if ∃ arg ∈ l, "--python.CAPI".toList <+: arg.toList then []
          else ["--python.CAPI=" ++ s.config.capiHome.text]) ++
        (if stacktrace = true ∧ "--python.WithJavaStacktrace" ∉ l then
          ["--python.WithJavaStacktrace"] else []) ++ l := by
  have hcapi : l.any (Text.startsWith · "--python.CAPI") = true ↔
      ∃ arg ∈ l, "--python.CAPI".toList <+: arg.toList := by
    simp only [List.any_eq_true, startsWith_iff]
  have hstacktrace : (stacktrace && !l.contains "--python.WithJavaStacktrace") = true ↔
      stacktrace = true ∧ "--python.WithJavaStacktrace" ∉ l := by
    rw [Bool.and_eq_true, Bool.not_eq_true', ← Bool.not_eq_true, List.contains_iff_mem]
  simp only [launcherArgs, hcapi, hstacktrace]

/-- **The arguments of a run and of its launch.**  Given are those of the virtual machine, the
distributions that arguments of the launcher name, the other arguments of the launcher, and the
class path.  The only tool that is run asks for the class path of the configured, the named and the
extra distributions, and prints it. -/
structure Arranged (runner : Runner) (s : Suite) (args : List String) (options : RunOptions)
    (w w' : World) (i : Invocation) (given rest dists langArgs : List String)
    (classpath : String) : Prop where
  divided : Divided args given rest
  parted : Parted ["-add-dist="] rest dists langArgs
  query : ∃ call ws output, w'.calls = w.calls ++ [call] ∧
    call.invocation = ⟨s.config.suite.mx, ["classpath",
        Text.join "," (s.config.python.distributions ++ dists ++ options.extraDistributions)],
      some s.dir, Overrides.empty, .capture⟩ ∧
    (runner call.invocation { w with warnings := ws }).outcome = .ok output ∧
    output.code = some 0 ∧ output.lastLine? = some classpath
  args : i.args = given ++ ["-cp", classpath] ++
    (if "-da" ∈ options.extraVmArgs then [] else ["-ea", "-esa"]) ++ options.extraVmArgs ++
    [s.config.python.mainClass] ++ ["--experimental-options=true"] ++
    (if ∃ arg ∈ langArgs, "--python.CAPI".toList <+: arg.toList then []
      else ["--python.CAPI=" ++ s.config.capiHome.text]) ++
    (if options.javaStacktrace = true ∧ "--python.WithJavaStacktrace" ∉ langArgs then
      ["--python.WithJavaStacktrace"] else []) ++ langArgs

/-- **Every argument of an assembled launch has its place,** in the order of the input. -/
theorem assemble_arguments {runner : Runner} {s : Suite} {args : List String}
    {options : RunOptions} {w w' : World} {i : Invocation}
    (h : (assemble runner s args options).run.run w = (.ok i, w')) :
    ∃ given rest dists langArgs classpath,
      Arranged runner s args options w w' i given rest dists langArgs classpath := by
  obtain ⟨ws, output, classpath, hanswer, hline, rfl, rfl⟩ := exists_launch_of_assemble h
  obtain ⟨houtcome, hcode⟩ := Runner.answer_eq_ok_iff.mp hanswer
  refine ⟨(splitVmArgs args).1, (splitVmArgs args).2, (takeDistributions (splitVmArgs args).2).2,
    (takeDistributions (splitVmArgs args).2).1, classpath, divided_iff.mpr rfl,
    parted_takeDistributions _, ⟨_, ws, output, rfl, launchQuery_eq s args options, houtcome,
      hcode, hline⟩, ?_⟩
  simp only [launchOf, vmArgs, launcherArgs_eq, List.contains_iff_mem, List.append_assoc]

/-- A tool that prints a class path. -/
def classpathPrinter : Runner := fun _ w =>
  ⟨w.disk, .ok ⟨some 0, "\n /cp.jar \n", ""⟩, ByteArray.empty, ByteArray.empty, []⟩

theorem assemble_arguments_small :
    let s : Suite := { config := { suite := { dir := ⟨"/suite"⟩ } } }
    let args := ["-add-dist=TOOLS", "-J-Xss2m", "-c", "@-add-dist=X", "@@", "-J", "-c"]
    let options : RunOptions :=
      { extraVmArgs := ["-da"], extraDistributions := ["EXTRA"], javaStacktrace := true }
    let w := World.start (Disk.empty ⟨0⟩) [] ⟨"/tmp"⟩ ∅
    ∃ i w', (assemble classpathPrinter s args options).run.run w = (.ok i, w') ∧
      i.args = ["-Xss2m", "-add-dist=X", "@", "", "-cp", "/cp.jar", "-da",
        "com.oracle.graal.python.shell.GraalPythonMain", "--experimental-options=true",
        "--python.CAPI=/suite/mxbuild/graalpython/com.oracle.graal.python.cext",
        "--python.WithJavaStacktrace", "-c", "-c"] ∧
      ∃ given rest dists langArgs classpath,
        Arranged classpathPrinter s args options w w' i given rest dists langArgs classpath := by
  intro s args options w
  have hargs : ((assemble classpathPrinter s args options).run.run w).1.toOption.map
      Invocation.args = some ["-Xss2m", "-add-dist=X", "@", "", "-cp", "/cp.jar", "-da",
        "com.oracle.graal.python.shell.GraalPythonMain", "--experimental-options=true",
        "--python.CAPI=/suite/mxbuild/graalpython/com.oracle.graal.python.cext",
        "--python.WithJavaStacktrace", "-c", "-c"] := by
    decide +kernel
  rcases hrun : (assemble classpathPrinter s args options).run.run w with ⟨e | i, w'⟩
  · rw [hrun] at hargs
    cases hargs
  · rw [hrun] at hargs
    exact ⟨i, w', rfl, Option.some.inj hargs, assemble_arguments hrun⟩

end SuiteGate.Python
