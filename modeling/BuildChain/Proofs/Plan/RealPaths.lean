import BuildChain.Proofs.Plan.Static
import BuildChain.Proofs.TestOrder.RunsAfter
import BuildChain.Settings.Script

/-! # The test order under real paths

The scripts of a run name the tasks by the real paths of their projects, also of those that are
not right below the root. Together they declare the constraints of the flat order, as far as these
concern projects with a script, and renaming the tasks brings in no cycle.
-/

namespace BuildChain

/-- The constraint between the renamed tasks. -/
def Constraint.map (f : Text → Text) (c : Constraint) : Constraint where
  task := f c.task
  runsAfter := c.runsAfter.map f

theorem runsAfter_map (constraints : List Constraint) (f : Text → Text) :
    RunsAfter (constraints.map (Constraint.map f)) = Relation.Map (RunsAfter constraints) f f := by
  ext x y
  constructor
  · rintro ⟨c', hc', rfl, hy⟩
    obtain ⟨c, hc, rfl⟩ := List.mem_map.mp hc'
    obtain ⟨y', hy', rfl⟩ := List.mem_map.mp hy
    exact ⟨c.task, y', ⟨c, hc, rfl, hy'⟩, rfl, rfl⟩
  · rintro ⟨x', y', ⟨c, hc, rfl, hy'⟩, rfl, rfl⟩
    exact ⟨c.map f, List.mem_map.mpr ⟨c, hc, rfl⟩, rfl, List.mem_map.mpr ⟨y', hy', rfl⟩⟩

namespace TestOrder

variable {order actives : List Text} {tasks : TestTasks}

/-- Naming the tasks in another way renames them in all constraints. -/
theorem chain_map {path path' : (name task : Text) → Text} {f : Text → Text}
    (hn : order.Nodup) (h : ∀ p ∈ order, ∀ t, f (path p t) = path' p t) :
    (chain order path tasks actives).map (Constraint.map f) = chain order path' tasks actives := by
  simp only [chain, List.map_flatMap]
  congr 1
  funext p
  unfold constraintsIn
  cases hq : predecessorIn? order p with
  | none => rfl
  | some q =>
    obtain ⟨hp, hqo, -⟩ := (predecessorIn?_eq_some_iff hn).mp hq
    simp [constraintsAfter, Constraint.map, h p hp, h q hqo]

/-- Leaving out projects leaves out their constraints. -/
theorem flatMap_filter_all (names excluded : List Text) (tasks : TestTasks) (p : Text → Bool) :
    ((all names excluded tasks).filter (p ·.1)).flatMap Prod.snd =
      chain (ordered names excluded) ProjectPath.flatTask tasks
        ((ordered names excluded).filter p) := by
  simp [chain, all, List.filter_map, List.flatMap_map, Function.comp_def]

end TestOrder

namespace Build

/-- Every project is called by the last segment of its path. -/
def IsNamed (build : Build) : Prop :=
  ∀ project ∈ build.projects, project.name = ProjectPath.name project.path

theorem isNamed_ofScript (source directoryName : Text) (properties : Entries) :
    (ofScript source directoryName properties).IsNamed := by
  intro project h
  obtain ⟨path, -, rfl⟩ := List.mem_map.mp h
  rfl

/-- The path of a flat task, moved to the real path of the project. -/
def relocate (build : Build) (x : Text) : Text :=
  let nameAndTask := x.drop 1
  match build.pathOf? (nameAndTask.takeWhile (· != ':')) with
  | some path => ProjectPath.task path ((nameAndTask.dropWhile (· != .char ':')).drop 1)
  | none => x

theorem relocate_flatTask (build : Build) {name : Text} (h : .char ':' ∉ name) (task : Text) :
    build.relocate (ProjectPath.flatTask name task) =
      TestOrder.taskPath build.pathOf? name task := by
  have hkeep : ∀ c ∈ name, (c != ':') = true := fun c hc => bne_iff_ne.mpr fun he => h (he ▸ hc)
  have htake : (name ++ .char ':' :: task).takeWhile (· != .char ':') = name := by
    simp [List.takeWhile_append_of_pos hkeep]
  have hdrop : (name ++ .char ':' :: task).dropWhile (· != .char ':') = .char ':' :: task := by
    simp [List.dropWhile_append_of_pos hkeep]
  rw [ProjectPath.flatTask_eq]
  cases hpath : build.pathOf? name <;>
    simp only [relocate, List.drop_one, List.tail_cons, htake, hdrop, TestOrder.taskPath, hpath,
      ProjectPath.flatTask_eq]

end Build

namespace Plan

variable {build : Build} {conventions : Conventions} {p q t u : Text} {project : Project}

/-- The project that the script of a name is for, if there is a script. -/
def scriptProject? (build : Build) (conventions : Conventions) (name : Text) : Option Project :=
  match build.named name with
  | [project] =>
    if (sharedPredecessor? build conventions name).isNone then some project else none
  | _ => none

/-- The projects that a run for all projects writes scripts for, in order. -/
def scripted (build : Build) (conventions : Conventions) : List Project :=
  (ordered build conventions).filterMap (scriptProject? build conventions)

/-- The constraints in all scripts. -/
def scriptConstraints (build : Build) (conventions : Conventions) : List Constraint :=
  (scripted build conventions).flatMap fun project =>
    orderConstraints build conventions project.name

/-- The constraints of the flat order for the projects that have a script. -/
def flatConstraints (build : Build) (conventions : Conventions) : List Constraint :=
  ((TestOrder.all build.projectNames conventions.excluded conventions.tasks).filter
    fun entry => (scripted build conventions).any (·.name = entry.1)).flatMap Prod.snd

/-- A test task of a project that takes part and has its name to itself. -/
def IsEndpoint (build : Build) (conventions : Conventions) (x : Text) : Prop :=
  ∃ project ∈ build.projects, IsAlone build project.name ∧ project.name ∉ conventions.excluded ∧
    ∃ t ∈ conventions.tasks.both, x = ProjectPath.task project.path t

theorem scriptProject?_eq_some_iff :
    scriptProject? build conventions p = some project ↔
      build.named p = [project] ∧
        ∀ q, predecessor? build conventions p = some q → IsAlone build q := by
  unfold scriptProject?
  constructor
  · intro h
    split at h
    · next project' hp =>
      split at h
      · next hs =>
        obtain rfl : project' = project := Option.some.inj h
        refine ⟨hp, fun q hq => ?_⟩
        by_contra hshared
        simp [sharedPredecessor?_eq_some hq hshared] at hs
      · simp at h
    · simp at h
  · rintro ⟨hp, hq⟩
    simp [hp, sharedPredecessor?_eq_none hq]

theorem mem_scripted :
    project ∈ scripted build conventions ↔
      project.name ∈ ordered build conventions ∧ build.named project.name = [project] ∧
        ∀ q, predecessor? build conventions project.name = some q → IsAlone build q := by
  simp only [scripted, List.mem_filterMap, scriptProject?_eq_some_iff]
  constructor
  · rintro ⟨p, hp, hnamed, hq⟩
    obtain rfl := Build.name_of_named hnamed
    exact ⟨hp, hnamed, hq⟩
  · rintro ⟨hp, hnamed, hq⟩
    exact ⟨project.name, hp, hnamed, hq⟩

theorem file?_orderStep (build : Build) (conventions : Conventions) (p : Text) :
    (orderStep build conventions p).file? =
      (scriptProject? build conventions p).map (orderFile build conventions) := by
  unfold scriptProject? orderStep
  rcases build.named p with _ | ⟨project, _ | ⟨project', projects⟩⟩
  · rfl
  · cases sharedPredecessor? build conventions p <;> rfl
  · rfl

/-- The files for some names, by the projects that they are for. -/
theorem filterMap_file?_orderStep (build : Build) (conventions : Conventions)
    (names : List Text) :
    (names.map (orderStep build conventions)).filterMap Step.file? =
      (names.filterMap (scriptProject? build conventions)).map (orderFile build conventions) := by
  rw [List.filterMap_map, List.map_filterMap]
  exact List.filterMap_congr fun p _ => file?_orderStep build conventions p

/-- A run for all projects writes one script for each of these projects. -/
theorem files_static_all (build : Build) (conventions : Conventions) :
    (static build conventions .all).files =
      (scripted build conventions).map (orderFile build conventions) :=
  filterMap_file?_orderStep build conventions (ordered build conventions)

theorem map_name_scripted (build : Build) (conventions : Conventions) :
    (scripted build conventions).map Project.name =
      (ordered build conventions).filter
        fun p => (scripted build conventions).any (·.name = p) := by
  have hkeep : ∀ p ∈ ordered build conventions,
      (scriptProject? build conventions p).map Project.name =
        Option.guard (fun p => (scripted build conventions).any (·.name = p)) p := by
    intro p hp
    cases h : scriptProject? build conventions p with
    | none =>
      have hnone : ¬ (scripted build conventions).any (·.name = p) := by
        simp only [List.any_eq_true, decide_eq_true_eq]
        rintro ⟨project, hproject, rfl⟩
        have hsome := scriptProject?_eq_some_iff.mpr (mem_scripted.mp hproject).2
        simp [hsome] at h
      simp [Option.guard, hnone]
    | some project =>
      have hname := Build.name_of_named (scriptProject?_eq_some_iff.mp h).1
      have hmem : project ∈ scripted build conventions := List.mem_filterMap.mpr ⟨p, hp, h⟩
      have hany : (scripted build conventions).any (·.name = p) :=
        List.any_eq_true.mpr ⟨project, hmem, by simpa using hname⟩
      simp [Option.guard, hany, hname]
  rw [← List.filterMap_eq_filter, ← List.filterMap_congr hkeep, ← List.map_filterMap]
  rfl

theorem scriptConstraints_eq_chain (build : Build) (conventions : Conventions) :
    scriptConstraints build conventions =
      TestOrder.chain (ordered build conventions) (TestOrder.taskPath build.pathOf?)
        conventions.tasks ((scripted build conventions).map Project.name) := by
  simp only [scriptConstraints, TestOrder.chain, List.flatMap_map]
  rfl

theorem flatConstraints_eq_chain (build : Build) (conventions : Conventions) :
    flatConstraints build conventions =
      TestOrder.chain (ordered build conventions) ProjectPath.flatTask conventions.tasks
        ((scripted build conventions).map Project.name) := by
  rw [map_name_scripted]
  exact TestOrder.flatMap_filter_all _ _ _ fun p => (scripted build conventions).any (·.name = p)

theorem colon_notMem_of_mem_names (hb : build.IsNamed) (hp : p ∈ build.projectNames) :
    .char ':' ∉ p := by
  obtain ⟨project, hproject, rfl⟩ := List.mem_map.mp hp
  rw [hb project hproject]
  exact ProjectPath.colon_notMem_name _

theorem scriptConstraints_eq_map (hb : build.IsNamed) (conventions : Conventions) :
    scriptConstraints build conventions =
      (flatConstraints build conventions).map (Constraint.map build.relocate) := by
  rw [scriptConstraints_eq_chain, flatConstraints_eq_chain]
  refine (TestOrder.chain_map (TestOrder.nodup_ordered _ _) fun p hp t => ?_).symm
  exact build.relocate_flatTask (colon_notMem_of_mem_names hb (mem_ordered_iff.mp hp).1) t

theorem taskPath_of_named (h : build.named p = [project]) (t : Text) :
    TestOrder.taskPath build.pathOf? p t = ProjectPath.task project.path t := by
  have hpath : build.pathOf? p = some project.path := Build.pathOf?_eq_some_iff.mpr ⟨_, h, rfl⟩
  simp only [TestOrder.taskPath, hpath]

theorem relocate_of_named (hb : build.IsNamed) (h : build.named p = [project]) (t : Text) :
    build.relocate (ProjectPath.flatTask p t) = ProjectPath.task project.path t := by
  have hp : p ∈ build.projectNames := Build.named_ne_nil_iff.mp (by simp [h])
  rw [build.relocate_flatTask (colon_notMem_of_mem_names hb hp), taskPath_of_named h]

/-- The path of a task tells the project, if the name is not shared. -/
theorem taskPath_inj (hb : build.IsNamed) (hp : IsAlone build p) (hq : IsAlone build q)
    (ht : .char ':' ∉ t) (hu : .char ':' ∉ u)
    (h : TestOrder.taskPath build.pathOf? p t = TestOrder.taskPath build.pathOf? q u) :
    p = q ∧ t = u := by
  obtain ⟨project, hp⟩ := hp
  obtain ⟨project', hq⟩ := hq
  rw [taskPath_of_named hp, taskPath_of_named hq, ProjectPath.task_inj ht hu] at h
  refine ⟨?_, h.2⟩
  rw [← Build.name_of_named hp, ← Build.name_of_named hq, hb _ (Build.mem_projects_of_named hp),
    hb _ (Build.mem_projects_of_named hq), ProjectPath.name_eq_afterLast,
    ProjectPath.name_eq_afterLast, h.1]

/-- The names that take part and are not shared. -/
def unshared (build : Build) (conventions : Conventions) : List Text :=
  (ordered build conventions).filter fun p => (build.pathOf? p).isSome

theorem isSome_pathOf?_iff : (build.pathOf? p).isSome ↔ IsAlone build p := by
  rw [← Option.ne_none_iff_isSome, ne_eq, Build.pathOf?_eq_none_iff, not_not]
  rfl

theorem mem_unshared :
    p ∈ unshared build conventions ↔ p ∈ ordered build conventions ∧ IsAlone build p := by
  simp [unshared, isSome_pathOf?_iff]

theorem covers_unshared (build : Build) (conventions : Conventions) :
    TestOrder.Covers (ordered build conventions) (unshared build conventions)
      ((scripted build conventions).map Project.name) := by
  intro p hp
  obtain ⟨project, hproject, rfl⟩ := List.mem_map.mp hp
  obtain ⟨hordered, hnamed, hpredecessor⟩ := mem_scripted.mp hproject
  refine ⟨mem_unshared.mpr ⟨hordered, project, hnamed⟩, fun q hq => ?_⟩
  have hqo := ((TestOrder.predecessorIn?_eq_some_iff (TestOrder.nodup_ordered _ _)).mp hq).2.1
  exact mem_unshared.mpr ⟨hqo, hpredecessor q hq⟩

theorem separates_unshared (hb : build.IsNamed)
    (hcolon : ∀ t ∈ conventions.tasks.both, .char ':' ∉ t) :
    TestOrder.Separates (TestOrder.taskPath build.pathOf?) conventions.tasks
      (unshared build conventions) :=
  fun _ hp _ hq t ht u hu h =>
    taskPath_inj hb (mem_unshared.mp hp).2 (mem_unshared.mp hq).2 (hcolon t ht) (hcolon u hu) h

theorem isEndpoint_of_mem_unshared (hp : p ∈ unshared build conventions)
    (ht : t ∈ conventions.tasks.both) :
    IsEndpoint build conventions (TestOrder.taskPath build.pathOf? p t) := by
  obtain ⟨hordered, project, hnamed⟩ := mem_unshared.mp hp
  obtain rfl := Build.name_of_named hnamed
  exact ⟨project, Build.mem_projects_of_named hnamed, ⟨project, hnamed⟩,
    (mem_ordered_iff.mp hordered).2, t, ht, taskPath_of_named hnamed t⟩

/-- Both ends of a declared relation are tasks of projects with names of their own. -/
theorem isEndpoint_of_runsAfter {x y : Text}
    (h : RunsAfter (scriptConstraints build conventions) x y) :
    IsEndpoint build conventions x ∧ IsEndpoint build conventions y := by
  rw [scriptConstraints_eq_chain] at h
  obtain ⟨p, hp, q, hq, t, ht, u, hu, rfl, rfl, -⟩ :=
    TestOrder.later_of_runsAfter (TestOrder.nodup_ordered _ _) (covers_unshared build conventions) h
  exact ⟨isEndpoint_of_mem_unshared hp ht, isEndpoint_of_mem_unshared hq hu⟩

/-- Each constraint of a script is about a task of the script's project, which goes by the last
part of its path. -/
theorem task_of_mem_orderConstraints (hcolon : ∀ t ∈ conventions.tasks.both, .char ':' ∉ t)
    (hproject : project ∈ scripted build conventions) {c : Constraint}
    (hc : c ∈ orderConstraints build conventions project.name) :
    c.task = ProjectPath.task project.path (Text.afterLast ':' c.task) := by
  have hnamed := (mem_scripted.mp hproject).2.1
  obtain ⟨t, ht, hct⟩ : ∃ t ∈ conventions.tasks.both,
      c.task = TestOrder.taskPath build.pathOf? project.name t := by
    unfold orderConstraints TestOrder.constraints TestOrder.constraintsIn at hc
    split at hc
    · simp only [TestOrder.constraintsAfter, List.mem_cons, List.not_mem_nil, or_false] at hc
      rcases hc with rfl | rfl
      · exact ⟨_, by simp, rfl⟩
      · exact ⟨_, by simp, rfl⟩
    · simp at hc
  rw [hct, taskPath_of_named hnamed, ProjectPath.afterLast_task (hcolon t ht)]

/-- The scripts of a run declare the flat order of the projects that have a script, with the name
of each project replaced by its real path. No two tasks come to share a path, no path is made up
for a project that is not there, and there is no cycle if the two tasks have different names. -/
theorem runsAfter_scriptConstraints (source directoryName : Text) (properties : Entries)
    (conventions : Conventions) (htest : .char ':' ∉ conventions.tasks.test)
    (hhammer : .char ':' ∉ conventions.tasks.hammer) :
    let build := Build.ofScript source directoryName properties
    (static build conventions .all).files =
      (scripted build conventions).map (orderFile build conventions) ∧
    (∀ project ∈ scripted build conventions,
      ∀ c ∈ orderConstraints build conventions project.name,
        c.task = ProjectPath.task project.path (Text.afterLast ':' c.task)) ∧
    RunsAfter (scriptConstraints build conventions) =
      Relation.Map (RunsAfter (flatConstraints build conventions)) build.relocate build.relocate ∧
    (∀ project ∈ build.projects, IsAlone build project.name →
      ∀ t, build.relocate (ProjectPath.flatTask project.name t) =
        ProjectPath.task project.path t) ∧
    (∀ p q, IsAlone build p → IsAlone build q →
      ∀ t ∈ conventions.tasks.both, ∀ u ∈ conventions.tasks.both,
        build.relocate (ProjectPath.flatTask p t) = build.relocate (ProjectPath.flatTask q u) →
          p = q ∧ t = u) ∧
    (∀ project ∈ scripted build conventions, build.pathOf? project.name = some project.path ∧
      ∀ q, predecessor? build conventions project.name = some q →
        ∃ path, build.pathOf? q = some path) ∧
    (∀ x y, RunsAfter (scriptConstraints build conventions) x y →
      IsEndpoint build conventions x ∧ IsEndpoint build conventions y) ∧
    (conventions.tasks.test ≠ conventions.tasks.hammer →
      ∀ x, ¬ Relation.TransGen (RunsAfter (scriptConstraints build conventions)) x x) := by
  intro build
  have hb : build.IsNamed := Build.isNamed_ofScript source directoryName properties
  have hcolon : ∀ t ∈ conventions.tasks.both, .char ':' ∉ t := by
    intro t ht
    rcases TestTasks.mem_both.mp ht with rfl | rfl <;> assumption
  refine ⟨files_static_all build conventions, ?_, ?_, ?_, ?_, ?_, ?_, ?_⟩
  · exact fun project hproject c hc => task_of_mem_orderConstraints hcolon hproject hc
  · rw [scriptConstraints_eq_map hb, runsAfter_map]
  · rintro project hproject ⟨project', hnamed⟩ t
    have hmem : project ∈ build.named project.name := Build.mem_named.mpr ⟨hproject, rfl⟩
    obtain rfl : project = project' := by simpa [hnamed] using hmem
    exact relocate_of_named hb hnamed t
  · rintro p q ⟨project, hp⟩ ⟨project', hq⟩ t ht u hu h
    rw [relocate_of_named hb hp, relocate_of_named hb hq, ← taskPath_of_named hp,
      ← taskPath_of_named hq] at h
    exact taskPath_inj hb ⟨project, hp⟩ ⟨project', hq⟩ (hcolon t ht) (hcolon u hu) h
  · intro project hproject
    obtain ⟨-, hnamed, hpredecessor⟩ := mem_scripted.mp hproject
    refine ⟨Build.pathOf?_eq_some_iff.mpr ⟨project, hnamed, rfl⟩, fun q hq => ?_⟩
    exact Option.isSome_iff_exists.mp (isSome_pathOf?_iff.mpr (hpredecessor q hq))
  · exact fun x y h => isEndpoint_of_runsAfter h
  · intro hne x h
    rw [scriptConstraints_eq_chain] at h
    exact TestOrder.acyclic_chain (TestOrder.nodup_ordered _ _) (covers_unshared build conventions)
      hne (separates_unshared hb hcolon) x h

/-- Nested projects, one excluded parent and a shared name, which also keeps its successor from
having a script. -/
theorem runsAfter_scriptConstraints_nested :
    let build := Build.ofScript "include(\":a\", \":lib:b\", \":x:c\", \":y:c\", \":d\")" "root" []
    let conventions := Conventions.load [] none (some ["lib"])
    .char ':' ∉ conventions.tasks.test ∧ .char ':' ∉ conventions.tasks.hammer ∧
    (scripted build conventions).map Project.path = [(":a" : Text), ":lib:b", ":x", ":y"] ∧
    RunsAfter (scriptConstraints build conventions)
      (":lib:b:test" : Text) (":a:hammerTest" : Text) ∧
    IsEndpoint build conventions (":lib:b:test" : Text) ∧
    ∀ x, ¬ Relation.TransGen (RunsAfter (scriptConstraints build conventions)) x x := by
  intro build conventions
  have htest : .char ':' ∉ conventions.tasks.test := by decide
  have hhammer : .char ':' ∉ conventions.tasks.hammer := by decide
  have hruns : RunsAfter (scriptConstraints build conventions)
      (":lib:b:test" : Text) (":a:hammerTest" : Text) := by decide +kernel
  obtain ⟨-, -, -, -, -, -, hends, hacyclic⟩ := runsAfter_scriptConstraints
    "include(\":a\", \":lib:b\", \":x:c\", \":y:c\", \":d\")" "root" [] conventions htest hhammer
  exact ⟨htest, hhammer, by decide +kernel, hruns, (hends _ _ hruns).1, hacyclic (by decide)⟩

end Plan

end BuildChain
