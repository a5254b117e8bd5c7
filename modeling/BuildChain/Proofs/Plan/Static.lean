import BuildChain.Proofs.FileTree.Kinds
import BuildChain.Proofs.Plan.Whole
import BuildChain.Run.Outcome

/-! # The outcome of each project

A run that writes test order scripts goes through the selected names in order. Each name leads to
one script or one warning, which depends on how many projects share the name and that of its
predecessor. The run can be carried out by looking names up in tables, and no lookup misses. It
breaks off at a script that cannot be written. The reason is an error of the file system, or the
path: it may be one that the file system cannot be asked for, or too deep. The texts of scripts are
no reason, since they are made of what the files of the build say.
-/

namespace BuildChain

open FileTree

namespace Outcome

/-- Steps that are not all carried out break off at a file that one of them generates. -/
theorem ending_ofSteps (out : FilePath) (steps : List Step) (tree : FileTree) :
    (ofSteps out steps tree).ending = .completed ∨
      ∃ file ∈ steps.filterMap Step.file?, ∃ e,
        (ofSteps out steps tree).ending = .failed (.file e) ∧
        WriteFault tree.limits (out / file.path) file.content e.fault := by
  induction steps generalizing tree with
  | nil => exact Or.inl rfl
  | cons step steps ih =>
    cases step with
    | warn warning => exact ih tree
    | say text => exact ih tree
    | generate file =>
      have hwrites := writes_write tree (out / file.path) file.content
      have hlimits := (keepsKinds_write tree (out / file.path) file.content).limits
      rw [ofSteps]
      generalize tree.write (out / file.path) file.content = result at hwrites hlimits ⊢
      obtain ⟨after, _ | e⟩ := result
      · rw [← hlimits]
        rcases ih after with hcompleted | ⟨other, hother, hbroken⟩
        · exact Or.inl hcompleted
        · exact Or.inr ⟨other, List.mem_cons_of_mem _ hother, hbroken⟩
      · exact Or.inr ⟨file, List.mem_cons_self, e, rfl, hwrites.writeFault⟩

end Outcome

namespace Plan

/-- The names that a run writes scripts for, or gives a reason not to. -/
def targets (build : Build) (conventions : Conventions) : Selection → List Text
  | .all => ordered build conventions
  | .only name => if (ordered build conventions).contains name then [name] else []
  | .unnamed => []

/-- What is said of a selection that takes no part in the test order. -/
def refusals (build : Build) (conventions : Conventions) : Selection → List Step
  | .all => []
  | .only name =>
    if (ordered build conventions).contains name then [] else [.warn (.notOrdered name)]
  | .unnamed => [.warn (.notOrdered Text.absent)]

/-- Exactly one project has the name. -/
def IsAlone (build : Build) (name : Text) : Prop :=
  ∃ project, build.named name = [project]

/-- The three things that a name of the test order can lead to. -/
inductive Leads (build : Build) (conventions : Conventions) (name : Text) : Step → Prop
  | script {project : Project} (hname : build.named name = [project])
      (hpredecessor : ∀ q, predecessor? build conventions name = some q → IsAlone build q) :
      Leads build conventions name (.generate
        { path := FilePath.ofText project.directory / FilePath.ofSegment orderFileName
          content := Script.Order.text name (orderConstraints build conventions name) })
  | sharedName (hshared : 2 ≤ (build.named name).length) :
      Leads build conventions name
        (.warn (.sharedName name ((build.named name).map Project.path)))
  | sharedPredecessor {q : Text} (hname : IsAlone build name)
      (hpredecessor : predecessor? build conventions name = some q)
      (hshared : 2 ≤ (build.named q).length) :
      Leads build conventions name
        (.warn (.sharedPredecessor q name ((build.named q).map Project.path)))

/-- The script of a name, with the project and the paths looked up. -/
def lookUpScript (build : Build) (conventions : Conventions) (name : Text) : Option Step := do
  let project ← build.find? name
  return .generate
    { path := FilePath.ofText project.directory / FilePath.ofSegment orderFileName
      content := Script.Order.text name (TestOrder.constraints build.projectNames
        conventions.excluded (build.ownPaths.get? ·) conventions.tasks name) }

/-- What the run does for one name, with all that is known of projects looked up by name. There is
no step if a lookup misses. -/
def lookUpStep (build : Build) (conventions : Conventions) (name : Text) : Option Step :=
  match build.ownPaths.get? name, predecessor? build conventions name with
  | none, _ => do
    let paths ← build.pathsByName.get? name
    return .warn (.sharedName name paths)
  | some _, none => lookUpScript build conventions name
  | some _, some predecessor =>
    match build.ownPaths.get? predecessor with
    | none => do
      let paths ← build.pathsByName.get? predecessor
      return .warn (.sharedPredecessor predecessor name paths)
    | some _ => lookUpScript build conventions name

variable {build : Build} {conventions : Conventions} {selection : Selection} {name q : Text}
  {project : Project}

theorem mem_ordered_iff :
    name ∈ ordered build conventions ↔
      name ∈ build.projectNames ∧ name ∉ conventions.excluded :=
  TestOrder.mem_ordered

theorem ordered_of_mem_targets (h : name ∈ targets build conventions selection) :
    name ∈ ordered build conventions := by
  cases selection with
  | all => exact h
  | only p =>
    simp only [targets] at h
    split at h
    · next hp =>
      rw [List.mem_singleton.mp h]
      exact List.contains_iff_mem.mp hp
    · simp at h
  | unnamed => simp [targets] at h

theorem pairwise_targets (build : Build) (conventions : Conventions) (selection : Selection) :
    (targets build conventions selection).Pairwise (· < ·) := by
  cases selection with
  | all => exact TestOrder.pairwise_ordered _ _
  | only p => by_cases hp : p ∈ ordered build conventions <;> simp [targets, hp]
  | unnamed => exact .nil

theorem steps_static (build : Build) (conventions : Conventions) (selection : Selection) :
    (static build conventions selection).steps =
      refusals build conventions selection ++
        (targets build conventions selection).map (orderStep build conventions) := by
  cases selection with
  | all => rfl
  | only p =>
    by_cases hp : p ∈ ordered build conventions
    · simp [static, scripts, refusals, targets, hp]
    · simp [static, unmatched, refusals, targets, hp]
  | unnamed => rfl

theorem predecessor_mem_names (h : predecessor? build conventions name = some q) :
    q ∈ build.projectNames := by
  have hq := ((TestOrder.predecessorIn?_eq_some_iff (TestOrder.nodup_ordered _ _)).mp h).2.1
  exact (TestOrder.mem_ordered.mp hq).1

theorem two_le_of_not_isAlone (hname : name ∈ build.projectNames) (h : ¬ IsAlone build name) :
    2 ≤ (build.named name).length := by
  unfold IsAlone at h
  have hne := Build.named_ne_nil_iff.mpr hname
  rcases hs : build.named name with _ | ⟨p, _ | ⟨p', ps⟩⟩
  · exact (hne hs).elim
  · exact (h ⟨p, hs⟩).elim
  · simp

theorem not_isAlone_of_two_le (h : 2 ≤ (build.named name).length) : ¬ IsAlone build name := by
  rintro ⟨p, hp⟩
  simp [hp] at h

theorem sharedPredecessor?_eq_none
    (h : ∀ q, predecessor? build conventions name = some q → IsAlone build q) :
    sharedPredecessor? build conventions name = none := by
  unfold sharedPredecessor?
  cases hq : predecessor? build conventions name with
  | none => rfl
  | some q =>
    obtain ⟨p, hp⟩ := h q hq
    simp [hp]

theorem sharedPredecessor?_eq_some (hq : predecessor? build conventions name = some q)
    (h : ¬ IsAlone build q) :
    sharedPredecessor? build conventions name = some (q, build.named q) := by
  unfold sharedPredecessor?
  rw [hq, Option.bind_some]
  split
  · next p hp => exact (h ⟨p, hp⟩).elim
  · rfl

theorem orderStep_script (h : build.named name = [project])
    (hs : sharedPredecessor? build conventions name = none) :
    orderStep build conventions name = .generate (orderFile build conventions project) := by
  simp only [orderStep, h, hs]

theorem orderStep_sharedPredecessor {sharers : List Project}
    (h : build.named name = [project])
    (hs : sharedPredecessor? build conventions name = some (q, sharers)) :
    orderStep build conventions name =
      .warn (.sharedPredecessor q name (sharers.map Project.path)) := by
  simp only [orderStep, h, hs]

theorem orderStep_of_not_isAlone (h : ¬ IsAlone build name) :
    orderStep build conventions name =
      .warn (.sharedName name ((build.named name).map Project.path)) := by
  unfold orderStep
  split
  · next p hp => exact (h ⟨p, hp⟩).elim
  · rfl

/-- A name of the build leads to one thing only. -/
theorem leads_iff (hname : name ∈ build.projectNames) {step : Step} :
    Leads build conventions name step ↔ step = orderStep build conventions name := by
  constructor
  · intro h
    cases h with
    | script hname' hpredecessor =>
      rw [orderStep_script hname' (sharedPredecessor?_eq_none hpredecessor)]
      simp [orderFile, Build.name_of_named hname']
    | sharedName hshared =>
      rw [orderStep_of_not_isAlone (not_isAlone_of_two_le hshared)]
    | sharedPredecessor hname' hpredecessor hshared =>
      obtain ⟨p, hp⟩ := hname'
      exact (orderStep_sharedPredecessor hp
        (sharedPredecessor?_eq_some hpredecessor (not_isAlone_of_two_le hshared))).symm
  · rintro rfl
    by_cases halone : IsAlone build name
    · obtain ⟨p, hp⟩ := halone
      by_cases hall : ∀ q, predecessor? build conventions name = some q → IsAlone build q
      · have hscript : Leads build conventions name _ := .script hp hall
        rw [orderStep_script hp (sharedPredecessor?_eq_none hall)]
        simpa [orderFile, Build.name_of_named hp] using hscript
      · push Not at hall
        obtain ⟨q, hq, hshared⟩ := hall
        rw [orderStep_sharedPredecessor hp (sharedPredecessor?_eq_some hq hshared)]
        exact .sharedPredecessor ⟨p, hp⟩ hq
          (two_le_of_not_isAlone (predecessor_mem_names hq) hshared)
    · rw [orderStep_of_not_isAlone halone]
      exact .sharedName (two_le_of_not_isAlone hname halone)

theorem lookUpScript_of_named (h : build.named name = [project]) :
    lookUpScript build conventions name = some (.generate
      { path := FilePath.ofText project.directory / FilePath.ofSegment orderFileName
        content := Script.Order.text name (orderConstraints build conventions name) }) := by
  have hpaths : (build.ownPaths.get? ·) = build.pathOf? := funext build.get?_ownPaths
  have hfind : build.find? name = some project := by rw [Build.find?_eq_head?, h]; rfl
  unfold lookUpScript
  rw [hfind, hpaths]
  rfl

theorem get?_ownPaths_eq_none_iff : build.ownPaths.get? name = none ↔ ¬ IsAlone build name := by
  rw [Build.get?_ownPaths, Build.pathOf?_eq_none_iff]
  rfl

theorem isAlone_of_get?_ownPaths {path : Text} (h : build.ownPaths.get? name = some path) :
    IsAlone build name := by
  rw [Build.get?_ownPaths, Build.pathOf?_eq_some_iff] at h
  obtain ⟨p, hp, -⟩ := h
  exact ⟨p, hp⟩

/-- No lookup misses for a name of the build. -/
theorem lookUpStep_eq (hname : name ∈ build.projectNames) :
    lookUpStep build conventions name = some (orderStep build conventions name) := by
  suffices h : ∃ step, lookUpStep build conventions name = some step ∧
      Leads build conventions name step by
    obtain ⟨step, hstep, hleads⟩ := h
    rw [hstep, (leads_iff hname).mp hleads]
  unfold lookUpStep
  cases hown : build.ownPaths.get? name with
  | none =>
    rw [Build.get?_pathsByName hname]
    exact ⟨_, rfl, .sharedName (two_le_of_not_isAlone hname (get?_ownPaths_eq_none_iff.mp hown))⟩
  | some path =>
    obtain ⟨p, hp⟩ := isAlone_of_get?_ownPaths hown
    cases hq : predecessor? build conventions name with
    | none =>
      exact ⟨_, lookUpScript_of_named hp, .script hp (by simp [hq])⟩
    | some q =>
      have hqname := predecessor_mem_names hq
      cases hqown : build.ownPaths.get? q with
      | none =>
        have hshared := two_le_of_not_isAlone hqname (get?_ownPaths_eq_none_iff.mp hqown)
        simp only [hqown, Build.get?_pathsByName hqname]
        exact ⟨_, rfl, .sharedPredecessor ⟨p, hp⟩ hq hshared⟩
      | some path' =>
        simp only [hqown]
        refine ⟨_, lookUpScript_of_named hp, .script hp ?_⟩
        rintro q' hq'
        obtain rfl : q = q' := Option.some.inj (hq.symm.trans hq')
        exact isAlone_of_get?_ownPaths hqown

theorem mapM_lookUpStep {names : List Text} (h : ∀ name ∈ names, name ∈ build.projectNames) :
    names.mapM (lookUpStep build conventions) =
      some (names.map (orderStep build conventions)) := by
  induction names with
  | nil => rfl
  | cons name names ih =>
    obtain ⟨hname, h⟩ := List.forall_mem_cons.mp h
    rw [List.mapM_cons, lookUpStep_eq hname, ih h]
    rfl

theorem exists_generate_iff (hname : name ∈ build.projectNames) :
    (∃ file, orderStep build conventions name = .generate file) ↔
      IsAlone build name ∧
        ∀ q, predecessor? build conventions name = some q → IsAlone build q := by
  constructor
  · rintro ⟨file, h⟩
    have hleads := (leads_iff hname).mpr h.symm
    cases hleads with
    | script hp hq => exact ⟨⟨_, hp⟩, hq⟩
  · rintro ⟨⟨p, hp⟩, hq⟩
    exact ⟨_, ((leads_iff hname).mp (.script hp hq)).symm⟩

/-- What writing a script of a build below `out` can fail with. All of it but what comes of the path
are errors of the file system. -/
inductive ScriptFault (limits : Limits) (out : FilePath) (file : GeneratedFile) :
    FileFault → Prop
  | reported {fault : FileFault} (reported : fault.isReported = true) :
      ScriptFault limits out file fault
  | unnameable {error : Text.EncodeError} (stray : out.hasStray = true) :
      ScriptFault limits out file (.unnameable error)
  | embeddedNull (null : (out / file.path).hasNull = true) :
      ScriptFault limits out file .embeddedNull
  | tooDeep (nested : limits.nesting < (out / file.path).parent.segments.length) :
      ScriptFault limits out file .tooDeep

/-- A file without halves of pairs leaves only the output directory to have them. -/
theorem scriptFault_of_writeFault {limits : Limits} {out : FilePath} {file : GeneratedFile}
    {fault : FileFault} (hfile : file.IsWritable)
    (h : WriteFault limits (out / file.path) file.content fault) :
    ScriptFault limits out file fault := by
  cases h with
  | reported reported => exact .reported reported
  | unnameable stray =>
    apply ScriptFault.unnameable
    by_contra hout
    rw [FilePath.hasStray_div (by simpa using hout) hfile.path] at stray
    cases stray
  | embeddedNull null => exact .embeddedNull null
  | tooDeep nested => exact .tooDeep nested
  | unencodable halves => exact absurd hfile.content halves

theorem ending_perform (plan : Plan) (out : FilePath) (tree : FileTree) :
    (plan.perform out tree).ending = .completed ∨
      ∃ file ∈ plan.files, ∃ e, (plan.perform out tree).ending = .failed (.file e) ∧
        WriteFault tree.limits (out / file.path) file.content e.fault := by
  rcases Outcome.ending_ofSteps out plan.steps tree with h | ⟨file, hfile, e, h, hfault⟩
  · exact Or.inl (by simp [perform, h])
  · exact Or.inr ⟨file, hfile, e, by simp [perform, h], hfault⟩

/-- A run that writes test order scripts goes once through the selected names, in ascending order
and without the excluded ones. Each of them leads to exactly one step: to a script if it names one
project and its predecessor names one project, and else to a warning. The steps are found without
a lookup that misses. If the build was read from files, the run completes, or it fails at the file
of a script: with an error of the file system, or because of a null character in the path, more
directories above the script than calls can be nested, or an output directory that has a half of a
pair in its name. The text of the script is never the reason. -/
theorem static_steps (build : Build) (conventions : Conventions) (selection : Selection) :
    (targets build conventions selection).Pairwise (· < ·) ∧
    (∀ name ∈ conventions.excluded, name ∉ targets build conventions selection) ∧
    (ofBuild build conventions .static selection).steps =
      exclusionSteps build conventions ++ (refusals build conventions selection ++
        (targets build conventions selection).map (orderStep build conventions)) ∧
    (targets build conventions selection).mapM (lookUpStep build conventions) =
      some ((targets build conventions selection).map (orderStep build conventions)) ∧
    (∀ name ∈ targets build conventions selection,
      (∀ step, Leads build conventions name step ↔ step = orderStep build conventions name) ∧
      ((∃ file, orderStep build conventions name = .generate file) ↔
        IsAlone build name ∧
          ∀ q, predecessor? build conventions name = some q → IsAlone build q)) ∧
    ∀ files settings group excluded, Build.load files settings = .ok build →
      conventions = Conventions.load build.properties group excluded → ∀ out tree,
      ((ofBuild build conventions .static selection).perform out tree).ending = .completed ∨
      ∃ file ∈ (ofBuild build conventions .static selection).files, ∃ e,
        ((ofBuild build conventions .static selection).perform out tree).ending =
          .failed (.file e) ∧
        ScriptFault tree.limits out file e.fault := by
  have hnames : ∀ name ∈ targets build conventions selection, name ∈ build.projectNames :=
    fun name h => (mem_ordered_iff.mp (ordered_of_mem_targets h)).1
  refine ⟨pairwise_targets build conventions selection, ?_, ?_, ?_, ?_, ?_⟩
  · intro name hexcluded h
    exact (mem_ordered_iff.mp (ordered_of_mem_targets h)).2 hexcluded
  · rw [← steps_static]
    rfl
  · exact mapM_lookUpStep hnames
  · intro name h
    exact ⟨fun step => leads_iff (hnames name h), exists_generate_iff (hnames name h)⟩
  · rintro files settings group excluded hload rfl out tree
    have hbuild := Build.isWhole_of_load hload
    have htasks := Conventions.isWhole_tasks hbuild.value group excluded
    rcases ending_perform (ofBuild build _ .static selection) out tree with
      hcompleted | ⟨file, hfile, e, hfailed, hfault⟩
    · exact Or.inl hcompleted
    · have hwritable := isWritable_of_mem_files hbuild htasks file hfile
      exact Or.inr ⟨file, hfile, e, hfailed, scriptFault_of_writeFault hwritable hfault⟩

/-- A null character in the name of a project ends the run with an error that is none of the file
system. -/
theorem static_embeddedNull :
    let build := Build.ofScript "include(\"a\x00b\")" "build" []
    let plan := ofBuild build (Conventions.load [] none (some [])) .static .all
    let outcome := plan.perform (.ofSegment "build") (.empty ["build"])
    plan.files.map (·.path.text) = [("a\x00b/test-order.gradle.kts" : Text)] ∧
    (∃ e, outcome.ending = .failed (.file e) ∧ e.fault.isReported = false) := by
  intro build plan outcome
  refine ⟨by decide +kernel, ⟨.embeddedNull, ⟨.working, ["build", "a\x00b"]⟩⟩, ?_, rfl⟩
  decide +kernel

end Plan

end BuildChain
