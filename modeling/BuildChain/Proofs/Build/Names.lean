import BuildChain.Build
import BuildChain.Proofs.Table

/-! # Projects by name

The projects of a build can be looked up in three ways: in a table of all paths by name, in a
table of the paths whose names are not shared, and by the first project with a name. All three
agree with the list of projects that have the name.
-/

namespace BuildChain

namespace Build

/-- Adds a path to those of the same name. -/
def addPath (table : Table Text (List Text)) (project : Project) : Table Text (List Text) :=
  table.set project.name ((table.get? project.name).getD [] ++ [project.path])

/-- The paths of all projects by their names. -/
def pathsByName (build : Build) : Table Text (List Text) :=
  build.projects.foldl addPath []

/-- The only path, if there is exactly one. -/
def sole? : List Text → Option Text
  | [path] => some path
  | _ => none

/-- The paths of the projects that have their names to themselves. -/
def ownPaths (build : Build) : Table Text Text :=
  build.pathsByName.filterMapValues sole?

variable {build : Build} {name : Text} {project : Project}

theorem mem_named :
    project ∈ build.named name ↔ project ∈ build.projects ∧ project.name = name := by
  simp [named]

theorem mem_projects_of_named (h : build.named name = [project]) : project ∈ build.projects :=
  (mem_named.mp (h ▸ List.mem_singleton_self project)).1

theorem named_eq_nil_iff : build.named name = [] ↔ name ∉ build.projectNames := by
  simp [named, projectNames, List.filter_eq_nil_iff]

theorem named_ne_nil_iff : build.named name ≠ [] ↔ name ∈ build.projectNames := by
  rw [ne_eq, named_eq_nil_iff, not_not]

theorem find?_eq_head? (build : Build) (name : Text) :
    build.find? name = (build.named name).head? :=
  (List.head?_filter ..).symm

theorem nodup_keys_foldl_addPath (projects : List Project) {table : Table Text (List Text)}
    (h : table.keys.Nodup) : (projects.foldl addPath table).keys.Nodup := by
  induction projects generalizing table with
  | nil => exact h
  | cons project projects ih => exact ih (Table.nodup_keys_set _ _ h)

theorem get?_foldl_addPath (projects : List Project) (table : Table Text (List Text))
    (name : Text) :
    (projects.foldl addPath table).get? name =
      match projects.filter (·.name = name) with
      | [] => table.get? name
      | sharers => some ((table.get? name).getD [] ++ sharers.map Project.path) := by
  induction projects generalizing table with
  | nil => rfl
  | cons project projects ih =>
    rw [List.foldl_cons, ih, addPath, Table.get?_set]
    by_cases h : name = project.name
    · subst h
      cases hrest : projects.filter (·.name = project.name) <;> simp [hrest]
    · simp [h, Ne.symm h]

/-- The table holds the paths of all projects with the name. -/
theorem get?_pathsByName (h : name ∈ build.projectNames) :
    build.pathsByName.get? name = some ((build.named name).map Project.path) := by
  have hne := named_ne_nil_iff.mpr h
  unfold pathsByName named at *
  rw [get?_foldl_addPath]
  cases hs : build.projects.filter (·.name = name) with
  | nil => exact (hne hs).elim
  | cons project sharers => rfl

theorem get?_pathsByName_of_notMem (h : name ∉ build.projectNames) :
    build.pathsByName.get? name = none := by
  have hnil := named_eq_nil_iff.mpr h
  unfold pathsByName named at *
  rw [get?_foldl_addPath, hnil]
  rfl

theorem pathOf?_eq_sole? (build : Build) (name : Text) :
    build.pathOf? name = sole? ((build.named name).map Project.path) := by
  unfold pathOf?
  rcases build.named name with _ | ⟨project, _ | ⟨project', projects⟩⟩ <;> rfl

/-- The table of the names that are not shared holds the path of the only project. -/
theorem get?_ownPaths (build : Build) (name : Text) :
    build.ownPaths.get? name = build.pathOf? name := by
  have hnodup : build.pathsByName.keys.Nodup :=
    nodup_keys_foldl_addPath build.projects List.nodup_nil
  rw [ownPaths, Table.get?_filterMapValues _ hnodup, pathOf?_eq_sole?]
  by_cases h : name ∈ build.projectNames
  · rw [get?_pathsByName h]
    rfl
  · rw [get?_pathsByName_of_notMem h, named_eq_nil_iff.mpr h]
    rfl

theorem pathOf?_eq_some_iff {path : Text} :
    build.pathOf? name = some path ↔
      ∃ project, build.named name = [project] ∧ project.path = path := by
  unfold pathOf?
  rcases build.named name with _ | ⟨project, _ | ⟨project', projects⟩⟩ <;> simp

theorem pathOf?_eq_none_iff :
    build.pathOf? name = none ↔ ¬ ∃ project, build.named name = [project] := by
  unfold pathOf?
  rcases build.named name with _ | ⟨project, _ | ⟨project', projects⟩⟩ <;> simp

theorem name_of_named (h : build.named name = [project]) : project.name = name :=
  (mem_named.mp (h ▸ List.mem_singleton_self project)).2

end Build

end BuildChain
