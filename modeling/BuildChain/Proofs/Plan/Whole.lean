import BuildChain.Proofs.Build.Whole
import BuildChain.Proofs.Plan.Steps
import BuildChain.Proofs.TestOrder.Predecessor

/-! # Scripts without halves of pairs

A test order script takes its text from the projects of the build and from the names of the test
tasks. The names that are excluded for one run come in no script, so a script has only what the
files of the build have.
-/

namespace BuildChain

open Text

variable {build : Build} {conventions : Conventions} {name path t task : Text} {tasks : TestTasks}

/-! ## Conventions -/

structure TestTasks.IsWhole (tasks : TestTasks) : Prop where
  test : tasks.test.IsWhole
  hammer : tasks.hammer.IsWhole

namespace Conventions

theorem isWhole_textOf {properties : Entries} {fallback : Text}
    (h : ∀ e ∈ properties, e.2.IsWhole) (key : Key) (hfallback : fallback.IsWhole) :
    (textOf properties key fallback).IsWhole := by
  rw [textOf]
  cases hvalue : key.value? properties with
  | none => exact hfallback
  | some value =>
    have hwhole := h _ (Table.mem_of_get? hvalue)
    cases value with
    | nil => exact hfallback
    | cons c value => exact hwhole

theorem isWhole_tasks {properties : Entries} (h : ∀ e ∈ properties, e.2.IsWhole)
    (group : Option Text) (excluded : Option (List Text)) :
    (load properties group excluded).tasks.IsWhole where
  test := isWhole_textOf h .testTask (by decide)
  hammer := isWhole_textOf h .hammerTask (by decide)

end Conventions

/-! ## Constraints -/

structure Constraint.IsWhole (constraint : Constraint) : Prop where
  task : constraint.task.IsWhole
  runsAfter : ∀ t ∈ constraint.runsAfter, t.IsWhole

namespace TestOrder

theorem isWhole_taskPath {paths : Text → Option Text}
    (hpaths : ∀ path, paths name = some path → path.IsWhole) (hname : name.IsWhole)
    (htask : task.IsWhole) : (taskPath paths name task).IsWhole := by
  rw [taskPath]
  split
  · next path hpath =>
    rw [ProjectPath.task, isWhole_append, isWhole_append]
    exact ⟨⟨ProjectPath.isWhole_normalize (hpaths path hpath), by decide⟩, htask⟩
  · rw [ProjectPath.flatTask, isWhole_append, isWhole_append, isWhole_append]
    exact ⟨⟨⟨by decide, hname⟩, by decide⟩, htask⟩

theorem isWhole_of_mem_constraintsAfter {path : Text → Text → Text} {predecessor active : Text}
    (h : ∀ name ∈ [predecessor, active], ∀ task, task.IsWhole → (path name task).IsWhole)
    (htasks : tasks.IsWhole) :
    ∀ constraint ∈ constraintsAfter path tasks predecessor active, constraint.IsWhole := by
  have hpredecessor := h predecessor (by simp)
  have hactive := h active (by simp)
  simp only [constraintsAfter, List.forall_mem_cons, List.not_mem_nil, false_imp_iff,
    implies_true, and_true]
  refine ⟨⟨hactive _ htasks.test, ?_⟩, ⟨hactive _ htasks.hammer, ?_⟩⟩
  · simp [hpredecessor _ htasks.test, hpredecessor _ htasks.hammer]
  · simp [hactive _ htasks.test, hpredecessor _ htasks.hammer]

theorem isWhole_of_mem_constraints {names excluded : List Text} {paths : Text → Option Text}
    {active : Text} (hnames : ∀ name ∈ names, name.IsWhole)
    (hpaths : ∀ name path, paths name = some path → path.IsWhole) (htasks : tasks.IsWhole) :
    ∀ constraint ∈ constraints names excluded paths tasks active, constraint.IsWhole := by
  rw [constraints, constraintsIn]
  split
  · next predecessor hpredecessor =>
    obtain ⟨hactive, hpredecessor, -⟩ :=
      (predecessorIn?_eq_some_iff (nodup_ordered names excluded)).mp hpredecessor
    refine isWhole_of_mem_constraintsAfter (fun name hname task htask => ?_) htasks
    apply isWhole_taskPath (hpaths name) _ htask
    apply hnames
    rcases List.mem_cons.mp hname with rfl | hname
    · exact (mem_ordered.mp hpredecessor).1
    · rw [List.mem_singleton.mp hname]
      exact (mem_ordered.mp hactive).1
  · exact List.forall_mem_nil _

end TestOrder

/-! ## Scripts -/

namespace Script

theorem isWhole_call {function argument : Text} (hfunction : function.IsWhole)
    (hargument : argument.IsWhole) : (call function argument).IsWhole := by
  simp only [call, literal, isWhole_append]
  exact ⟨⟨⟨hfunction, by decide⟩, ⟨by decide, hargument⟩, by decide⟩, by decide⟩

theorem isWhole_of_mem_block {head : Text} {body : List Text} (hhead : head.IsWhole)
    (hbody : ∀ line ∈ body, line.IsWhole) : ∀ line ∈ block head body, line.IsWhole := by
  simp only [block, List.forall_mem_append, List.forall_mem_cons, List.forall_mem_map]
  refine ⟨⟨isWhole_append.mpr ⟨hhead, by decide⟩, ?_⟩, by decide, by simp⟩
  exact fun line hline => isWhole_append.mpr ⟨by decide, hbody line hline⟩

namespace Order

theorem isWhole_of_mem_constraintLines {constraint : Constraint} (h : constraint.IsWhole) :
    ∀ line ∈ constraintLines constraint, line.IsWhole := by
  rw [constraintLines, List.forall_mem_append]
  constructor
  · apply isWhole_of_mem_block
    · exact isWhole_call (by decide) (h.task.of_subset fun _ => mem_of_mem_afterLast)
    · simp only [List.forall_mem_map]
      exact fun t ht => isWhole_call (by decide) (h.runsAfter t ht)
  · simp [isWhole_nil]

theorem isWhole_text {constraints : List Constraint} (hname : name.IsWhole)
    (h : ∀ constraint ∈ constraints, constraint.IsWhole) : (text name constraints).IsWhole := by
  apply isWhole_join (by decide)
  rw [lines, List.forall_mem_cons, isWhole_append, isWhole_append]
  refine ⟨⟨⟨by decide, hname⟩, by decide⟩, ?_⟩
  split
  · decide
  · rw [List.forall_mem_cons]
    refine ⟨isWhole_nil, fun line hline => ?_⟩
    obtain ⟨constraint, hconstraint, hline⟩ := List.mem_flatMap.mp hline
    exact isWhole_of_mem_constraintLines (h constraint hconstraint) line hline

end Order

end Script

namespace FilePath

theorem hasStray_ofText (h : t.IsWhole) : (ofText t).hasStray = false := by
  rw [hasStray, List.any_eq_false]
  intro s hs
  have hs := h.of_mem_pieces (List.mem_of_mem_filter hs)
  simpa using hs.isStray_eq_false

theorem hasStray_div {p q : FilePath} (hp : p.hasStray = false) (hq : q.hasStray = false) :
    (p / q).hasStray = false := by
  change (join p q).hasStray = false
  rw [join]
  split
  · rw [hasStray] at hp hq ⊢
    rw [List.any_append, hp, hq]
    rfl
  · exact hq

end FilePath

/-- No half of a pair stands in the way of writing the file. -/
structure GeneratedFile.IsWritable (file : GeneratedFile) : Prop where
  path : file.path.hasStray = false
  content : file.content.IsWhole

namespace Plan

theorem isWritable_orderFile {project : Project} (hbuild : build.IsWhole)
    (htasks : conventions.tasks.IsWhole) (hproject : project ∈ build.projects) :
    (orderFile build conventions project).IsWritable where
  path := by
    have hdirectory := (hbuild.project project hproject).directory
    exact FilePath.hasStray_div (FilePath.hasStray_ofText hdirectory) (by decide)
  content := by
    apply Script.Order.isWhole_text (hbuild.project project hproject).name
    apply TestOrder.isWhole_of_mem_constraints
    · exact List.forall_mem_map.mpr fun p hp => (hbuild.project p hp).name
    · intro name path hpath
      obtain ⟨p, hnamed, rfl⟩ := Build.pathOf?_eq_some_iff.mp hpath
      exact (hbuild.project p (Build.mem_projects_of_named hnamed)).path
    · exact htasks

/-- What the files of a build say can be written in scripts. -/
theorem isWritable_of_mem_files {selection : Selection} (hbuild : build.IsWhole)
    (htasks : conventions.tasks.IsWhole) :
    ∀ file ∈ (ofBuild build conventions .static selection).files, file.IsWritable := by
  apply forall_mem_files
  · rintro ⟨⟩
  · exact fun project => isWritable_orderFile hbuild htasks

end Plan

end BuildChain
