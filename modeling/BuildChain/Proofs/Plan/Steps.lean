import BuildChain.Proofs.Build.Names
import BuildChain.Proofs.FilePath
import BuildChain.Run.Load
import BuildChain.Run.Plan

/-! # The steps of a plan

Whatever its kind, a plan warns, says the report, or generates the convention plugin or test order
scripts. The files that it generates are not called like those that a run reads.
-/

namespace BuildChain

theorem Mode.ofText?_text (mode : Mode) : Mode.ofText? mode.text = some mode := by
  cases mode <;> rfl

theorem Mode.eq_of_ofText?_eq_some {t : Text} {mode : Mode} (h : Mode.ofText? t = some mode) :
    mode.text = t := by
  simpa using List.find?_some h

namespace Plan

variable {build : Build} {conventions : Conventions} {mode : Mode} {selection : Selection}

/-- What holds of the steps that a plan can have holds of all its steps. -/
theorem forall_mem_steps {P : Step → Prop} (hwarn : ∀ warning, P (.warn warning))
    (hsay : mode = .report → ∀ text, P (.say text))
    (hplugin : mode = .plugin → P (.generate (pluginFile conventions)))
    (horder : ∀ project ∈ build.projects, P (.generate (orderFile build conventions project))) :
    ∀ step ∈ (ofBuild build conventions mode selection).steps, P step := by
  have horderStep : ∀ name, P (orderStep build conventions name) := by
    intro name
    unfold orderStep
    split
    · next project hnamed =>
      split
      · exact horder project (Build.mem_projects_of_named hnamed)
      · exact hwarn _
    · exact hwarn _
  have hscripts : ∀ names, ∀ step ∈ (scripts build conventions names).steps, P step := by
    intro names step hstep
    obtain ⟨name, -, rfl⟩ := List.mem_map.mp hstep
    exact horderStep name
  have hunmatched : ∀ name, ∀ step ∈ (unmatched name).steps, P step := by
    intro name step hstep
    obtain rfl := List.mem_singleton.mp hstep
    exact hwarn _
  intro step hstep
  rcases List.mem_append.mp hstep with hstep | hstep
  · obtain ⟨name, -, rfl⟩ := List.mem_map.mp hstep
    exact hwarn _
  · cases mode with
    | plugin =>
      obtain rfl := List.mem_singleton.mp hstep
      exact hplugin rfl
    | report =>
      obtain rfl := List.mem_singleton.mp hstep
      exact hsay rfl _
    | static =>
      cases selection with
      | all => exact hscripts _ step hstep
      | only name =>
        simp only [static] at hstep
        split at hstep
        · exact hscripts _ step hstep
        · exact hunmatched _ step hstep
      | unnamed => exact hunmatched _ step hstep

/-- What holds of the files that a plan can generate holds of those that it generates. -/
theorem forall_mem_files {P : GeneratedFile → Prop}
    (hplugin : mode = .plugin → P (pluginFile conventions))
    (horder : ∀ project ∈ build.projects, P (orderFile build conventions project)) :
    ∀ file ∈ (ofBuild build conventions mode selection).files, P file := by
  have hall : ∀ step ∈ (ofBuild build conventions mode selection).steps,
      ∀ file, step.file? = some file → P file := by
    apply forall_mem_steps
    · rintro warning file ⟨⟩
    · rintro - text file ⟨⟩
    · rintro hmode file ⟨⟩
      exact hplugin hmode
    · rintro project hproject file ⟨⟩
      exact horder project hproject
  intro file hfile
  obtain ⟨step, hstep, hfile⟩ := List.mem_filterMap.mp hfile
  exact hall step hstep file hfile

theorem filterMap_exclusionSteps (build : Build) (conventions : Conventions) :
    (exclusionSteps build conventions).filterMap Step.file? = [] := by
  rw [List.filterMap_eq_nil_iff]
  intro step hstep
  obtain ⟨name, -, rfl⟩ := List.mem_map.mp hstep
  rfl

theorem files_report (build : Build) (conventions : Conventions) (selection : Selection) :
    (ofBuild build conventions .report selection).files = [] := by
  rw [files, ofBuild, List.filterMap_append, filterMap_exclusionSteps]
  rfl

end Plan

/-! ## What the files are called -/

/-- What the files are called that a run reads. -/
def Settings.sourceNames : List Text :=
  ("gradle.properties" : Text) :: fileNames

/-- The path ends in a name, and that is not one of a file that a run reads. -/
def FilePath.IsApart (path : FilePath) : Prop :=
  ∃ name, path.fileName? = some name ∧ name ≠ ".." ∧ name ∉ Settings.sourceNames

namespace Plan

theorem isApart_pluginFile (conventions : Conventions) :
    (pluginFile conventions).path.IsApart := by
  have hending : ∀ name ∈ (".." : Text) :: Settings.sourceNames,
      ¬ (".conventions.gradle.kts" : Text) <:+ name := by decide
  obtain ⟨stem, hstem⟩ := FilePath.exists_fileName?_ofText conventions.group
    ".conventions.gradle.kts" (by decide) (by decide)
  refine ⟨_, FilePath.fileName?_div hstem _, ?_, ?_⟩
  · intro heq
    exact hending ".." (by simp) ⟨stem, heq⟩
  · intro hmem
    exact hending _ (List.mem_cons_of_mem _ hmem) ⟨stem, rfl⟩

theorem isApart_orderFile (build : Build) (conventions : Conventions) (project : Project) :
    (orderFile build conventions project).path.IsApart :=
  ⟨orderFileName, FilePath.fileName?_div rfl _, by decide, by decide⟩

/-- A plan generates no file that is called like one that a run reads. -/
theorem isApart_of_mem_files {build : Build} {conventions : Conventions} {mode : Mode}
    {selection : Selection} {file : GeneratedFile}
    (h : file ∈ (ofBuild build conventions mode selection).files) : file.path.IsApart := by
  apply forall_mem_files _ _ file h
  · exact fun _ => isApart_pluginFile conventions
  · exact fun project _ => isApart_orderFile build conventions project

end Plan

end BuildChain
