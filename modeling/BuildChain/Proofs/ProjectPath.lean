import BuildChain.ProjectPath
import BuildChain.Proofs.Text.Split

/-! # Laws of project paths

A path is as good as its segments: they are found again in the path that is made of them, and
name and task are the parts after the last colon.
-/

namespace BuildChain.ProjectPath

/-- The parts that a path is made of. -/
def IsSegment (s : Text) : Prop :=
  s ≠ [] ∧ .char ':' ∉ s

variable {path s t u : Text} {parts : List Text}

theorem isSegment_of_mem_segments (h : s ∈ segments path) : IsSegment s := by
  obtain ⟨hne, hs⟩ := Text.mem_pieces h
  exact ⟨hne, fun hc => by simpa using (hs _ hc).2⟩

theorem ofSegments_of_ne_nil (h : parts ≠ []) :
    ofSegments parts = parts.flatMap (.char ':' :: ·) := by
  obtain ⟨s, parts, rfl⟩ := List.exists_cons_of_ne_nil h
  have hjoin : Text.join [.char ':'] (s :: parts) = s ++ parts.flatMap (.char ':' :: ·) :=
    Text.join_cons s parts
  rw [List.flatMap_cons, List.cons_append, ← hjoin]
  rfl

/-- The segments of a path are the pieces it was made of. -/
theorem pieces_ofSegments (h : ∀ s ∈ parts, IsSegment s) :
    Text.pieces (· == ':') (ofSegments parts) = parts := by
  cases parts with
  | nil => rfl
  | cons s parts =>
    rw [ofSegments_of_ne_nil (by simp)]
    exact Text.pieces_append_flatMap h []

/-- The last segment follows the last colon. -/
theorem afterLast_ofSegments (h : ∀ s ∈ parts, IsSegment s) :
    Text.afterLast ':' (ofSegments parts) = parts.getLastD [] := by
  rcases List.eq_nil_or_concat parts with rfl | ⟨front, s, rfl⟩
  · rfl
  · rw [List.concat_eq_append] at h ⊢
    rw [ofSegments_of_ne_nil (by simp), List.flatMap_append, List.flatMap_singleton,
      Text.afterLast_append_cons (h s (by simp)).2]
    simp

theorem name_eq_afterLast (path : Text) : name path = Text.afterLast ':' (normalize path) :=
  (afterLast_ofSegments fun _ => isSegment_of_mem_segments).symm

theorem colon_notMem_name (path : Text) : .char ':' ∉ name path := by
  unfold name
  rcases List.eq_nil_or_concat (segments path) with h | ⟨front, s, h⟩
  · simp [h]
  · rw [List.concat_eq_append] at h
    have hs : s ∈ segments path := by simp [h]
    simpa [h] using (isSegment_of_mem_segments hs).2

theorem task_eq (path task : Text) :
    ProjectPath.task path task = normalize path ++ .char ':' :: task := by
  simp [ProjectPath.task]

/-- A task name without a colon can be read off the path of the task. -/
theorem task_inj {path' : Text} (ht : .char ':' ∉ t) (hu : .char ':' ∉ u) :
    task path t = task path' u ↔ normalize path = normalize path' ∧ t = u := by
  rw [task_eq, task_eq, Text.append_cons_inj' ht hu]

theorem afterLast_task (ht : .char ':' ∉ t) : Text.afterLast (.char ':') (task path t) = t := by
  rw [task_eq, Text.afterLast_append_cons ht]

theorem flatTask_eq (name task : Text) :
    flatTask name task = .char ':' :: (name ++ .char ':' :: task) := by
  simp [flatTask]

/-- A name without a colon can be read off the path of a task. -/
theorem flatTask_inj {p q : Text} (hp : .char ':' ∉ p) (hq : .char ':' ∉ q) :
    flatTask p t = flatTask q u ↔ p = q ∧ t = u := by
  rw [flatTask_eq, flatTask_eq, List.cons_inj_right, Text.append_cons_inj hp hq]

end BuildChain.ProjectPath
