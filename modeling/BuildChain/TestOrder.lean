import BuildChain.ProjectPath

/-! # Sequential test order

The test tasks of a build run one project after another, in the order of the project names. Each
project that is not the first has a predecessor, and its two test tasks wait for those of the
predecessor.
-/

namespace BuildChain

/-- The two test tasks that each project has. -/
structure TestTasks where
  test : Text
  hammer : Text
  deriving DecidableEq, Repr

/-- A task may not start before all of some other tasks have finished. -/
structure Constraint where
  task : Text
  runsAfter : List Text
  deriving DecidableEq, Repr

namespace TestOrder

/-- Puts a text in its place among texts in ascending order, unless it is there. -/
def insert (t : Text) : List Text → List Text
  | [] => [t]
  | u :: us =>
    if t < u then t :: u :: us
    else if t = u then u :: us
    else u :: insert t us

/-- The distinct members in ascending order. -/
def sortDistinct (ts : List Text) : List Text :=
  ts.foldr insert []

/-- The names that take part, in the order in which their tests run. -/
def ordered (names excluded : List Text) : List Text :=
  sortDistinct (names.filter (!excluded.contains ·))

/-- The position of the first occurrence of a name. -/
def position? (order : List Text) (active : Text) : Option Nat :=
  order.idxOf? active

/-- The name right before the first occurrence of `active`. -/
def predecessorIn? (order : List Text) (active : Text) : Option Text :=
  match position? order active with
  | some (n + 1) => order[n]?
  | _ => none

/-- The project whose tests run right before those of `active`. -/
def predecessor? (names excluded : List Text) (active : Text) : Option Text :=
  predecessorIn? (ordered names excluded) active

/-- The path of a task: below the path that `paths` knows for the project, or else as that of a
project right below the root. -/
def taskPath (paths : Text → Option Text) (name task : Text) : Text :=
  match paths name with
  | some path => ProjectPath.task path task
  | none => ProjectPath.flatTask name task

/-- The constraints of a project with a predecessor, for a way `path` to name a project's
tasks: its test task waits for both tasks of the predecessor, its hammer task for its own test
task and the predecessor's hammer task. -/
def constraintsAfter (path : (name task : Text) → Text) (tasks : TestTasks)
    (predecessor active : Text) : List Constraint := [
  { task := path active tasks.test
    runsAfter := [path predecessor tasks.test, path predecessor tasks.hammer] },
  { task := path active tasks.hammer
    runsAfter := [path active tasks.test, path predecessor tasks.hammer] }]

def constraintsIn (order : List Text) (path : (name task : Text) → Text) (tasks : TestTasks)
    (active : Text) : List Constraint :=
  match predecessorIn? order active with
  | some predecessor => constraintsAfter path tasks predecessor active
  | none => []

/-- The constraints of one project: none if it is the first or takes no part. -/
def constraints (names excluded : List Text) (paths : Text → Option Text) (tasks : TestTasks)
    (active : Text) : List Constraint :=
  constraintsIn (ordered names excluded) (taskPath paths) tasks active

/-- The projects that take part, in order, each with its constraints. -/
def all (names excluded : List Text) (tasks : TestTasks) : List (Text × List Constraint) :=
  let order := ordered names excluded
  order.map fun name => (name, constraintsIn order ProjectPath.flatTask tasks name)

theorem lt_of_not_lt {t u : Text} (h : ¬ t < u) (hne : t ≠ u) : u < t := by
  have hle := List.not_lt.mp h
  exact Decidable.byContradiction fun hlt => hne (List.le_antisymm (List.not_lt.mp hlt) hle)

@[simp] theorem mem_insert {t u : Text} {us : List Text} : t ∈ insert u us ↔ t = u ∨ t ∈ us := by
  induction us with
  | nil => simp [insert]
  | cons v us ih =>
    simp only [insert]
    split
    · simp
    · split
      · next h => simp [h]
      · simp only [List.mem_cons, ih]
        exact or_left_comm

@[simp] theorem mem_sortDistinct {t : Text} {ts : List Text} : t ∈ sortDistinct ts ↔ t ∈ ts := by
  unfold sortDistinct
  induction ts with
  | nil => simp
  | cons u ts ih => simp [ih]

theorem pairwise_insert {t : Text} {us : List Text} (h : us.Pairwise (· < ·)) :
    (insert t us).Pairwise (· < ·) := by
  induction us with
  | nil => simp [insert]
  | cons u us ih =>
    obtain ⟨hu, hus⟩ := List.pairwise_cons.mp h
    simp only [insert]
    split
    · next htu =>
      refine List.pairwise_cons.mpr ⟨fun v hv => ?_, h⟩
      rcases List.mem_cons.mp hv with rfl | hv
      · exact htu
      · exact List.lt_trans htu (hu v hv)
    · next htu =>
      split
      · exact h
      · next hne =>
        refine List.pairwise_cons.mpr ⟨fun v hv => ?_, ih hus⟩
        rcases mem_insert.mp hv with rfl | hv
        · exact lt_of_not_lt htu hne
        · exact hu v hv

/-- Sorting leaves no two equal members. -/
theorem pairwise_sortDistinct (ts : List Text) : (sortDistinct ts).Pairwise (· < ·) := by
  unfold sortDistinct
  induction ts with
  | nil => exact .nil
  | cons t ts ih => exact pairwise_insert ih

@[simp] theorem mem_ordered {t : Text} {names excluded : List Text} :
    t ∈ ordered names excluded ↔ t ∈ names ∧ t ∉ excluded := by
  simp [ordered]

theorem pairwise_ordered (names excluded : List Text) :
    (ordered names excluded).Pairwise (· < ·) :=
  pairwise_sortDistinct _

end TestOrder

end BuildChain
