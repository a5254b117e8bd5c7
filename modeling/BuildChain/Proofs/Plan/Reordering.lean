import BuildChain.Proofs.Plan.Static
import BuildChain.Proofs.Settings.Reordering

/-! # Plans and the order of declarations

Neither the order of the projects nor that of the excluded names shows in a plan, but for one
thing: a warning lists the projects that share a name in the order of their declaration.
-/

namespace BuildChain

namespace Build

variable {build build' : Build}

namespace Reorders

theorem perm_projectNames (h : build.Reorders build') :
    build.projectNames.Perm build'.projectNames :=
  h.projects.map _

theorem perm_named (h : build.Reorders build') (name : Text) :
    (build.named name).Perm (build'.named name) :=
  h.projects.filter _

theorem mem_projectNames (h : build.Reorders build') (name : Text) :
    name ∈ build.projectNames ↔ name ∈ build'.projectNames :=
  h.perm_projectNames.mem_iff

theorem named_eq_singleton_iff (h : build.Reorders build') {name : Text} {project : Project} :
    build.named name = [project] ↔ build'.named name = [project] := by
  have hperm := h.perm_named name
  constructor
  · intro hnamed
    rw [hnamed] at hperm
    exact List.perm_singleton.mp hperm.symm
  · intro hnamed
    rw [hnamed] at hperm
    exact List.perm_singleton.mp hperm

theorem pathOf?_eq (h : build.Reorders build') : build.pathOf? = build'.pathOf? := by
  funext name
  ext path
  simp only [Build.pathOf?_eq_some_iff, h.named_eq_singleton_iff]

end Reorders

end Build

/-- The conventions differ at most in the order and the repetition of the excluded names. -/
structure Conventions.Reorders (conventions conventions' : Conventions) : Prop where
  same : { conventions' with excluded := conventions.excluded } = conventions
  mem_excluded : ∀ name, name ∈ conventions.excluded ↔ name ∈ conventions'.excluded

/-- Names can be excluded in any order and repeatedly. -/
theorem Conventions.reorders_load (properties : Entries) (group : Option Text)
    {excluded excluded' : List Text} (h : ∀ name, name ∈ excluded ↔ name ∈ excluded') :
    (load properties group (some excluded)).Reorders (load properties group (some excluded')) where
  same := rfl
  mem_excluded := h

/-- The warnings differ at most in the order of the projects that share a name. -/
inductive Warning.Reorders : Warning → Warning → Prop
  | refl (warning : Warning) : Reorders warning warning
  | sharedName (name : Text) {paths paths' : List Text} (h : paths.Perm paths') :
      Reorders (.sharedName name paths) (.sharedName name paths')
  | sharedPredecessor (predecessor name : Text) {paths paths' : List Text}
      (h : paths.Perm paths') :
      Reorders (.sharedPredecessor predecessor name paths)
        (.sharedPredecessor predecessor name paths')

/-- The steps are the same but for such warnings. -/
inductive Step.Reorders : Step → Step → Prop
  | warn {warning warning' : Warning} (h : warning.Reorders warning') :
      Reorders (.warn warning) (.warn warning')
  | say (text : Text) : Reorders (.say text) (.say text)
  | generate (file : GeneratedFile) : Reorders (.generate file) (.generate file)

theorem Step.Reorders.refl (step : Step) : step.Reorders step := by
  cases step with
  | warn warning => exact .warn (.refl warning)
  | say text => exact .say text
  | generate file => exact .generate file

theorem Step.Reorders.file?_eq {step step' : Step} (h : step.Reorders step') :
    step.file? = step'.file? := by
  cases h <;> rfl

/-- The plans have the same steps one by one, but for such warnings. -/
structure Plan.Reorders (plan plan' : Plan) : Prop where
  steps : List.Forall₂ Step.Reorders plan.steps plan'.steps
  closing : plan.closing = plan'.closing

theorem Step.filterMap_file?_eq {steps steps' : List Step}
    (h : List.Forall₂ Step.Reorders steps steps') :
    steps.filterMap Step.file? = steps'.filterMap Step.file? := by
  induction h with
  | nil => rfl
  | cons hstep _ ih => rw [List.filterMap_cons, List.filterMap_cons, hstep.file?_eq, ih]

namespace Plan

variable {build build' : Build} {conventions conventions' : Conventions}

theorem ordered_eq (hb : build.Reorders build') (hc : conventions.Reorders conventions') :
    ordered build conventions = ordered build' conventions' :=
  TestOrder.ordered_congr hb.mem_projectNames hc.mem_excluded

theorem predecessor?_eq (hb : build.Reorders build') (hc : conventions.Reorders conventions')
    (name : Text) : predecessor? build conventions name = predecessor? build' conventions' name :=
  congrArg (TestOrder.predecessorIn? · name) (ordered_eq hb hc)

theorem tasks_eq (hc : conventions.Reorders conventions') :
    conventions.tasks = conventions'.tasks := by
  rw [← hc.same]

theorem orderFile_eq (hb : build.Reorders build') (hc : conventions.Reorders conventions')
    (project : Project) :
    orderFile build conventions project = orderFile build' conventions' project := by
  have hconstraints : orderConstraints build conventions project.name =
      orderConstraints build' conventions' project.name := by
    have hordered : TestOrder.ordered build.projectNames conventions.excluded =
      TestOrder.ordered build'.projectNames conventions'.excluded := ordered_eq hb hc
    rw [orderConstraints, orderConstraints, TestOrder.constraints, TestOrder.constraints, hordered,
      hb.pathOf?_eq, tasks_eq hc]
  rw [orderFile, orderFile, hconstraints]

theorem isAlone_iff (hb : build.Reorders build') (name : Text) :
    IsAlone build name ↔ IsAlone build' name := by
  simp only [IsAlone, hb.named_eq_singleton_iff]

/-- A name leads to the same script, or to a warning about the same projects. -/
theorem reorders_orderStep (hb : build.Reorders build') (hc : conventions.Reorders conventions')
    (name : Text) :
    (orderStep build conventions name).Reorders (orderStep build' conventions' name) := by
  -- Whether a name is shared does not depend on the order, so both sides take the same branch.
  by_cases halone : IsAlone build name
  · obtain ⟨project, hnamed⟩ := halone
    have hnamed' := hb.named_eq_singleton_iff.mp hnamed
    by_cases hall : ∀ q, predecessor? build conventions name = some q → IsAlone build q
    · have hall' : ∀ q, predecessor? build' conventions' name = some q → IsAlone build' q := by
        intro q hq
        rw [← predecessor?_eq hb hc] at hq
        exact (isAlone_iff hb q).mp (hall q hq)
      rw [orderStep_script hnamed (sharedPredecessor?_eq_none hall),
        orderStep_script hnamed' (sharedPredecessor?_eq_none hall'), orderFile_eq hb hc]
      exact .generate _
    · push Not at hall
      obtain ⟨q, hq, hshared⟩ := hall
      have hq' := hq
      rw [predecessor?_eq hb hc] at hq'
      have hshared' : ¬ IsAlone build' q := fun h => hshared ((isAlone_iff hb q).mpr h)
      rw [orderStep_sharedPredecessor hnamed (sharedPredecessor?_eq_some hq hshared),
        orderStep_sharedPredecessor hnamed' (sharedPredecessor?_eq_some hq' hshared')]
      exact .warn (.sharedPredecessor q name ((hb.perm_named q).map _))
  · have halone' : ¬ IsAlone build' name := fun h => halone ((isAlone_iff hb name).mpr h)
    rw [orderStep_of_not_isAlone halone, orderStep_of_not_isAlone halone']
    exact .warn (.sharedName name ((hb.perm_named name).map _))

namespace Reorders

theorem refl (plan : Plan) : plan.Reorders plan where
  steps := List.forall₂_same.mpr fun step _ => .refl step
  closing := rfl

theorem files_eq {plan plan' : Plan} (h : plan.Reorders plan') : plan.files = plan'.files :=
  Step.filterMap_file?_eq h.steps

end Reorders

theorem reorders_scripts (hb : build.Reorders build') (hc : conventions.Reorders conventions')
    (names : List Text) :
    (scripts build conventions names).Reorders (scripts build' conventions' names) := by
  have hsteps : List.Forall₂ Step.Reorders (names.map (orderStep build conventions))
      (names.map (orderStep build' conventions')) := by
    rw [List.forall₂_map_left_iff, List.forall₂_map_right_iff]
    exact List.forall₂_same.mpr fun name _ => reorders_orderStep hb hc name
  constructor
  · exact hsteps
  · rw [scripts, scripts, Step.filterMap_file?_eq hsteps]

theorem reorders_static (hb : build.Reorders build') (hc : conventions.Reorders conventions')
    (selection : Selection) :
    (static build conventions selection).Reorders (static build' conventions' selection) := by
  cases selection with
  | all =>
    rw [static, static, ordered_eq hb hc]
    exact reorders_scripts hb hc _
  | only name =>
    rw [static, static, ordered_eq hb hc]
    split
    · exact reorders_scripts hb hc _
    · exact .refl _
  | unnamed => exact .refl _

theorem group_eq (hc : conventions.Reorders conventions') :
    conventions.group = conventions'.group := by
  rw [← hc.same]

theorem pluginFile_eq (hc : conventions.Reorders conventions') :
    pluginFile conventions = pluginFile conventions' := by
  have hempty : conventions.excluded.isEmpty = conventions'.excluded.isEmpty := by
    rw [Bool.eq_iff_iff, List.isEmpty_iff, List.isEmpty_iff, List.eq_nil_iff_forall_not_mem,
      List.eq_nil_iff_forall_not_mem]
    simp only [hc.mem_excluded]
  have hsort := TestOrder.sortDistinct_inj.mpr hc.mem_excluded
  have hblock : Script.Plugin.orderBlock conventions = Script.Plugin.orderBlock conventions' := by
    rw [Script.Plugin.orderBlock, Script.Plugin.orderBlock, hempty, hsort, tasks_eq hc]
  have hlines : Script.Plugin.lines conventions = Script.Plugin.lines conventions' := by
    rw [Script.Plugin.lines, Script.Plugin.lines, hblock, ← hc.same]
  rw [pluginFile, pluginFile, Script.Plugin.text, Script.Plugin.text, hlines, group_eq hc]

theorem report_eq (hb : build.Reorders build') (hc : conventions.Reorders conventions') :
    report build conventions = report build' conventions' := by
  have hskipped : Report.skipped build.projectNames conventions.excluded =
      Report.skipped build'.projectNames conventions'.excluded := by
    apply TestOrder.sortDistinct_inj.mpr
    intro t
    simp [hb.mem_projectNames, hc.mem_excluded]
  have hordered : TestOrder.ordered build.projectNames conventions.excluded =
    TestOrder.ordered build'.projectNames conventions'.excluded := ordered_eq hb hc
  rw [report, report, Report.text, Report.text, Report.lines, Report.lines, hskipped, hordered]

theorem exclusionSteps_eq (hb : build.Reorders build') (hc : conventions.Reorders conventions') :
    exclusionSteps build conventions = exclusionSteps build' conventions' := by
  rw [exclusionSteps, exclusionSteps, hb.rootName,
    TestOrder.ordered_congr hc.mem_excluded hb.mem_projectNames]

/-- The order of the projects and of the excluded names does not show in a plan, up to warnings. -/
theorem reorders_ofBuild (hb : build.Reorders build') (hc : conventions.Reorders conventions')
    (mode : Mode) (selection : Selection) :
    (ofBuild build conventions mode selection).Reorders
      (ofBuild build' conventions' mode selection) := by
  have hplan : ∀ {plan plan' : Plan}, plan.Reorders plan' →
      Reorders { plan with steps := exclusionSteps build conventions ++ plan.steps }
        { plan' with steps := exclusionSteps build' conventions' ++ plan'.steps } := by
    intro plan plan' h
    constructor
    · rw [exclusionSteps_eq hb hc]
      exact List.rel_append (List.forall₂_same.mpr fun step _ => .refl step) h.steps
    · exact h.closing
  cases mode with
  | plugin =>
    apply hplan
    rw [plugin, plugin, pluginFile_eq hc, group_eq hc]
    exact .refl _
  | static => exact hplan (reorders_static hb hc selection)
  | report =>
    apply hplan
    rw [report_eq hb hc]
    exact .refl _

end Plan

end BuildChain
