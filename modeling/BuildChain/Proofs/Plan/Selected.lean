import Mathlib.Data.List.Nodup
import BuildChain.Proofs.Plan.RealPaths
import BuildChain.Proofs.Plan.Steps
import BuildChain.Proofs.Run.Writing

/-! # One project of the test order

A run for one project plans what a run for all projects plans for it, and nothing else. Its place
in the test order comes from the whole build.
-/

namespace BuildChain.Plan

open Outcome (assignments)

/-- What a run below the directory `out` gives to the script of a project. -/
def scriptAt (build : Build) (conventions : Conventions) (out : FilePath) (project : Project) :
    Assignment where
  path := out / (orderFile build conventions project).path
  content := (orderFile build conventions project).content

/-- The selected projects that have a script, in order. -/
def scriptedOf (build : Build) (conventions : Conventions) (selection : Selection) :
    List Project :=
  (targets build conventions selection).filterMap (scriptProject? build conventions)

variable {build : Build} {conventions : Conventions} {out : FilePath} {name : Text}
  {project : Project}

theorem steps_ofBuild_static (build : Build) (conventions : Conventions) (selection : Selection) :
    (ofBuild build conventions .static selection).steps =
      exclusionSteps build conventions ++ (refusals build conventions selection ++
        (targets build conventions selection).map (orderStep build conventions)) := by
  rw [← steps_static]
  rfl

theorem filterMap_refusals (build : Build) (conventions : Conventions) (selection : Selection) :
    (refusals build conventions selection).filterMap Step.file? = [] := by
  cases selection with
  | all => rfl
  | only name =>
    rw [refusals]
    split <;> rfl
  | unnamed => rfl

theorem assignments_static (build : Build) (conventions : Conventions) (selection : Selection)
    (out : FilePath) :
    assignments out (ofBuild build conventions .static selection).steps =
      (scriptedOf build conventions selection).map (scriptAt build conventions out) := by
  rw [assignments, steps_ofBuild_static, List.filterMap_append, List.filterMap_append,
    filterMap_exclusionSteps, filterMap_refusals, filterMap_file?_orderStep, List.nil_append,
    List.nil_append, List.map_map]
  rfl

theorem targets_only (build : Build) (conventions : Conventions) (name : Text) :
    targets build conventions (.only name) =
      (targets build conventions .all).filter fun p => p = name := by
  have hnodup : (ordered build conventions).Nodup := TestOrder.nodup_ordered _ _
  rw [targets, targets, List.filter_eq]
  split
  · next h => rw [List.count_eq_one_of_mem hnodup (List.contains_iff_mem.mp h), List.replicate_one]
  · next h =>
    rw [List.count_eq_zero_of_not_mem fun hmem => h (List.contains_iff_mem.mpr hmem)]
    rfl

/-- Of the projects with a script, the selected one keeps it. -/
theorem scriptedOf_only (build : Build) (conventions : Conventions) (name : Text) :
    scriptedOf build conventions (.only name) =
      (scriptedOf build conventions .all).filter fun project => project.name = name := by
  rw [scriptedOf, scriptedOf, targets_only, List.filterMap_filter, List.filter_filterMap]
  apply List.filterMap_congr
  intro p _
  cases hproject : scriptProject? build conventions p with
  | none => simp
  | some project =>
    obtain rfl : project.name = p :=
      Build.name_of_named (scriptProject?_eq_some_iff.mp hproject).1
    simp [Option.filter]

theorem targets_only_of_mem (h : name ∈ ordered build conventions) :
    targets build conventions (.only name) = [name] := by
  simp [targets, h]

theorem scriptedOf_only_of_mem (h : project ∈ scriptedOf build conventions .all) :
    scriptedOf build conventions (.only project.name) = [project] := by
  obtain ⟨hordered, hscript⟩ := mem_scripted.mp h
  rw [scriptedOf, targets_only_of_mem hordered, List.filterMap_cons,
    scriptProject?_eq_some_iff.mpr hscript]
  rfl

theorem steps_only_of_mem (h : name ∈ ordered build conventions) :
    (ofBuild build conventions .static (.only name)).steps =
      exclusionSteps build conventions ++ [orderStep build conventions name] := by
  rw [steps_ofBuild_static, targets_only_of_mem h]
  simp [refusals, h]

theorem steps_only_of_notMem (h : name ∉ ordered build conventions) :
    (ofBuild build conventions .static (.only name)).steps =
      exclusionSteps build conventions ++ [.warn (.notOrdered name)] := by
  rw [steps_ofBuild_static]
  simp [refusals, targets, h]

theorem orderStep_mem_steps (h : name ∈ ordered build conventions) :
    orderStep build conventions name ∈ (ofBuild build conventions .static .all).steps := by
  rw [steps_ofBuild_static]
  have hmem := List.mem_map_of_mem (f := orderStep build conventions) h
  exact List.mem_append_right _ (List.mem_append_right _ hmem)

theorem assignments_of_warning {warning : Warning} :
    assignments out (exclusionSteps build conventions ++ [.warn warning]) = [] := by
  rw [assignments, List.filterMap_append, filterMap_exclusionSteps]
  rfl

/-- A run for one name is the restriction of a run for all names to this one. If its project has
a script there, it is the one file, with the same content. If there is a warning instead, it is
the same one, and nothing is written. Nothing is written as well if the name is unknown or
excluded. -/
theorem assignments_only (build : Build) (conventions : Conventions) (out : FilePath)
    (name : Text) :
    let full := ofBuild build conventions .static .all
    let one := ofBuild build conventions .static (.only name)
    assignments out full.steps =
      (scriptedOf build conventions .all).map (scriptAt build conventions out) ∧
    assignments out one.steps =
      ((scriptedOf build conventions .all).filter fun project => project.name = name).map
        (scriptAt build conventions out) ∧
    (∀ project ∈ scriptedOf build conventions .all, project.name = name →
      assignments out one.steps = [scriptAt build conventions out project]) ∧
    (name ∈ ordered build conventions →
      orderStep build conventions name ∈ full.steps ∧
      one.steps = exclusionSteps build conventions ++ [orderStep build conventions name] ∧
      ∀ warning, Leads build conventions name (.warn warning) →
        orderStep build conventions name = .warn warning ∧ assignments out one.steps = []) ∧
    (name ∉ build.projectNames ∨ name ∈ conventions.excluded →
      one.steps = exclusionSteps build conventions ++ [.warn (.notOrdered name)] ∧
      assignments out one.steps = []) := by
  intro full one
  have hone : assignments out one.steps =
      (scriptedOf build conventions (.only name)).map (scriptAt build conventions out) :=
    assignments_static ..
  refine ⟨assignments_static .., ?_, ?_, ?_, ?_⟩
  · rw [hone, scriptedOf_only]
  · rintro project hproject rfl
    rw [hone, scriptedOf_only_of_mem hproject]
    rfl
  · intro hordered
    have hsteps := steps_only_of_mem hordered
    refine ⟨orderStep_mem_steps hordered, hsteps, ?_⟩
    intro warning hleads
    have hwarning := ((leads_iff (mem_ordered_iff.mp hordered).1).mp hleads).symm
    refine ⟨hwarning, ?_⟩
    rw [hsteps, hwarning, assignments_of_warning]
  · intro hout
    have hordered : name ∉ ordered build conventions := by
      intro h
      obtain ⟨hname, hkept⟩ := mem_ordered_iff.mp h
      exact hout.elim (fun h => h hname) hkept
    have hsteps := steps_only_of_notMem hordered
    refine ⟨hsteps, ?_⟩
    rw [hsteps, assignments_of_warning]

end BuildChain.Plan
