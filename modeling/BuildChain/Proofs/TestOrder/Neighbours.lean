import BuildChain.Proofs.TestOrder.Predecessor

/-! # Neighbours in the order

A project waits for its neighbour, the next smaller name that takes part. So a new name changes
the constraints of two projects at most, its own and those of the next greater name. To exclude a
name is as good as to delete it.
-/

namespace BuildChain.TestOrder

/-- The first name is smaller than the second, and no member of the order lies between them. -/
def Neighbours (order : List Text) (q p : Text) : Prop :=
  q < p ∧ ∀ r ∈ order, q < r → ¬ r < p

instance (order : List Text) (q p : Text) : Decidable (Neighbours order q p) :=
  inferInstanceAs (Decidable (q < p ∧ ∀ r ∈ order, q < r → ¬ r < p))

variable {names added excluded excluding : List Text} {p q x active : Text}
  {paths : Text → Option Text} {tasks : TestTasks}

theorem ascending_ordered (names excluded : List Text) : Ascending (ordered names excluded) :=
  (pairwise_ordered names excluded).imp List.lt_asymm

/-- The predecessor of a project that takes part is its smaller neighbour. -/
theorem predecessor?_eq_some_iff_neighbours :
    predecessor? names excluded p = some q ↔
      p ∈ ordered names excluded ∧ q ∈ ordered names excluded ∧
        Neighbours (ordered names excluded) q p := by
  rw [predecessor?, predecessorIn?_eq_some_iff_greatest (ascending_ordered names excluded)]
  constructor
  · rintro ⟨hp, ⟨hq, hlt⟩, hgreatest⟩
    exact ⟨hp, hq, hlt, fun r hr hqr hrp => hgreatest r hr hrp hqr⟩
  · rintro ⟨hp, hq, hlt, hbetween⟩
    exact ⟨hp, ⟨hq, hlt⟩, fun r hr hrp hqr => hbetween r hr hqr hrp⟩

/-- The predecessor of a name is the greatest smaller name of those that take part. There is none
for a name that does not take part, and none without a smaller name. -/
theorem predecessor?_nearest (names excluded : List Text) (active : Text) :
    (∀ q, predecessor? names excluded active = some q ↔
      (active ∈ names ∧ active ∉ excluded) ∧ (q ∈ names ∧ q ∉ excluded) ∧ q < active ∧
        ∀ r ∈ names, r ∉ excluded → ¬ (q < r ∧ r < active)) ∧
    (predecessor? names excluded active = none ↔
      active ∈ excluded ∨ active ∉ names ∨ ∀ r ∈ names, r ∉ excluded → ¬ r < active) := by
  constructor
  · intro q
    rw [predecessor?_eq_some_iff_neighbours, Neighbours, mem_ordered, mem_ordered]
    simp only [mem_ordered, and_imp, not_and]
  · rw [predecessor?, predecessorIn?_eq_none_iff (ascending_ordered names excluded), mem_ordered,
      not_and_or, not_not, or_comm (a := active ∉ names), or_assoc]
    simp only [mem_ordered, and_imp]

/-- Excluded and repeated names between `b` and `e` are passed over. -/
example :
    predecessor? ["e", "c", "b", "d", "b", "e"] ["c", "d", "f"] "e" = some ("b" : Text) := by
  decide

/-! ## A new name -/

section New

variable (hadded : ∀ name, name ∈ added ↔ name = x ∨ name ∈ names)

include hadded

theorem mem_ordered_added (hexcluded : x ∉ excluded) :
    p ∈ ordered added excluded ↔ p = x ∨ p ∈ ordered names excluded := by
  rw [mem_ordered, mem_ordered, hadded]
  constructor
  · rintro ⟨rfl | hp, hnot⟩
    · exact Or.inl rfl
    · exact Or.inr ⟨hp, hnot⟩
  · rintro (rfl | ⟨hp, hnot⟩)
    · exact ⟨Or.inl rfl, hexcluded⟩
    · exact ⟨Or.inr hp, hnot⟩

/-- A new name parts the neighbours that it lies between, and no others. -/
theorem neighbours_added (hexcluded : x ∉ excluded) :
    Neighbours (ordered added excluded) q p ↔
      Neighbours (ordered names excluded) q p ∧ ¬ (q < x ∧ x < p) := by
  constructor
  · rintro ⟨hlt, hbetween⟩
    refine ⟨⟨hlt, fun r hr => ?_⟩, ?_⟩
    · exact hbetween r ((mem_ordered_added hadded hexcluded).mpr (Or.inr hr))
    · rintro ⟨hqx, hxp⟩
      exact hbetween x ((mem_ordered_added hadded hexcluded).mpr (Or.inl rfl)) hqx hxp
  · rintro ⟨⟨hlt, hbetween⟩, hx⟩
    refine ⟨hlt, fun r hr hqr hrp => ?_⟩
    rcases (mem_ordered_added hadded hexcluded).mp hr with rfl | hr
    · exact hx ⟨hqr, hrp⟩
    · exact hbetween r hr hqr hrp

/-- Projects keep their predecessors, but for the new one and its greater neighbour. -/
theorem predecessor?_added_of_ne (hexcluded : x ∉ excluded) (hne : active ≠ x)
    (hnext : ¬ (active ∈ ordered names excluded ∧
      Neighbours (ordered names excluded) x active)) :
    predecessor? added excluded active = predecessor? names excluded active := by
  ext q
  rw [predecessor?_eq_some_iff_neighbours, predecessor?_eq_some_iff_neighbours,
    mem_ordered_added hadded hexcluded, mem_ordered_added hadded hexcluded,
    neighbours_added hadded hexcluded]
  constructor
  · rintro ⟨hactive, hq, hneighbours, -⟩
    have hordered := hactive.resolve_left hne
    refine ⟨hordered, hq.resolve_left ?_, hneighbours⟩
    rintro rfl
    exact hnext ⟨hordered, hneighbours⟩
  · rintro ⟨hactive, hq, hlt, hbetween⟩
    refine ⟨Or.inr hactive, Or.inr hq, ⟨hlt, hbetween⟩, ?_⟩
    rintro ⟨hqx, hxp⟩
    exact hnext ⟨hactive, hxp, fun r hr hxr => hbetween r hr (List.lt_trans hqx hxr)⟩

theorem predecessor?_added_self (hexcluded : x ∉ excluded) :
    predecessor? added excluded x = some q ↔
      q ∈ ordered names excluded ∧ Neighbours (ordered names excluded) q x := by
  rw [predecessor?_eq_some_iff_neighbours, mem_ordered_added hadded hexcluded,
    mem_ordered_added hadded hexcluded, neighbours_added hadded hexcluded]
  constructor
  · rintro ⟨-, hq, hneighbours, -⟩
    refine ⟨hq.resolve_left ?_, hneighbours⟩
    rintro rfl
    exact List.lt_irrefl q hneighbours.1
  · rintro ⟨hq, hneighbours⟩
    exact ⟨Or.inl rfl, Or.inr hq, hneighbours, fun h => List.lt_irrefl x h.2⟩

theorem predecessor?_added_next (hexcluded : x ∉ excluded)
    (hactive : active ∈ ordered names excluded)
    (hnext : Neighbours (ordered names excluded) x active) :
    predecessor? added excluded active = some x := by
  rw [predecessor?_eq_some_iff_neighbours, mem_ordered_added hadded hexcluded,
    mem_ordered_added hadded hexcluded, neighbours_added hadded hexcluded]
  exact ⟨Or.inr hactive, Or.inl rfl, hnext, fun h => List.lt_irrefl x h.1⟩

end New

/-! ## An excluded name -/

section Excluded

variable (hexcluding : ∀ name, name ∈ excluding ↔ name = x ∨ name ∈ excluded)

include hexcluding

theorem predecessor?_excluding (active : Text) :
    predecessor? names excluding active =
      predecessor? (names.filter (· ≠ x)) excluded active := by
  apply predecessorIn?_congr (ascending_ordered _ _) (ascending_ordered _ _)
  intro r
  simp only [mem_ordered, hexcluding, List.mem_filter, decide_eq_true_eq, not_or]
  constructor
  · rintro ⟨hr, hne, hnot⟩
    exact ⟨⟨hr, hne⟩, hnot⟩
  · rintro ⟨⟨hr, hne⟩, hnot⟩
    exact ⟨hr, hne, hnot⟩

theorem predecessor?_excluding_self : predecessor? names excluding x = none := by
  apply predecessorIn?_of_notMem
  rw [mem_ordered]
  rintro ⟨-, hnot⟩
  exact hnot ((hexcluding x).mpr (Or.inl rfl))

end Excluded

/-- A new project `x` waits for its smaller neighbour and its greater neighbour waits for it. All
others keep their constraints. A project that is excluded has none, and the others have those
that they have without it. -/
theorem constraints_added_excluding
    (hadded : ∀ name, name ∈ added ↔ name = x ∨ name ∈ names)
    (hexcluding : ∀ name, name ∈ excluding ↔ name = x ∨ name ∈ excluded)
    (paths : Text → Option Text) (tasks : TestTasks) :
    let order := ordered names excluded
    (x ∉ excluded →
      (∀ active, active ≠ x → ¬ (active ∈ order ∧ Neighbours order x active) →
        constraints added excluded paths tasks active =
          constraints names excluded paths tasks active) ∧
      (∀ q, predecessor? added excluded x = some q ↔ q ∈ order ∧ Neighbours order q x) ∧
      (∀ q ∈ order, Neighbours order q x →
        constraints added excluded paths tasks x =
          constraintsAfter (taskPath paths) tasks q x) ∧
      ((∀ q ∈ order, ¬ q < x) → constraints added excluded paths tasks x = []) ∧
      (∀ next ∈ order, Neighbours order x next →
        predecessor? added excluded next = some x ∧
        constraints added excluded paths tasks next =
          constraintsAfter (taskPath paths) tasks x next)) ∧
    (∀ active,
      constraints names excluding paths tasks active =
        constraints (names.filter (· ≠ x)) excluded paths tasks active) ∧
    constraints names excluding paths tasks x = [] := by
  intro order
  refine ⟨fun hexcluded => ⟨?_, ?_, ?_, ?_, ?_⟩, ?_, ?_⟩
  · intro active hne hnext
    rw [constraints_eq, predecessor?_added_of_ne hadded hexcluded hne hnext, constraints_eq]
  · intro q
    exact predecessor?_added_self hadded hexcluded
  · intro q hq hneighbours
    rw [constraints_eq, (predecessor?_added_self hadded hexcluded).mpr ⟨hq, hneighbours⟩]
  · intro hfirst
    have hnone : predecessor? added excluded x = none := by
      rw [Option.eq_none_iff_forall_ne_some]
      intro q hq
      obtain ⟨hmem, hlt, -⟩ := (predecessor?_added_self hadded hexcluded).mp hq
      exact hfirst q hmem hlt
    rw [constraints_eq, hnone]
  · intro next hnext hneighbours
    have hx := predecessor?_added_next hadded hexcluded hnext hneighbours
    exact ⟨hx, by rw [constraints_eq, hx]⟩
  · intro active
    rw [constraints_eq, predecessor?_excluding hexcluding, constraints_eq]
  · rw [constraints_eq, predecessor?_excluding_self hexcluding]

/-- A project `d` comes between `b` and `e`, of which `e` has a path of its own, and beside the
excluded `c`. Then `d` is excluded as well. -/
theorem constraints_added_between :
    let names : List Text := ["e", "b", "c", "a", "b"]
    let added : List Text := ("d" : Text) :: names
    let excluding : List Text := ("d" : Text) :: [("c" : Text)]
    let paths : Text → Option Text := fun name =>
      if name = ("e" : Text) then some (":group:e" : Text) else none
    let tasks : TestTasks := ⟨"test", "hammerTest"⟩
    (∀ name, name ∈ added ↔ name = ("d" : Text) ∨ name ∈ names) ∧
    (∀ name, name ∈ excluding ↔ name = ("d" : Text) ∨ name ∈ [("c" : Text)]) ∧
    constraints added ["c"] paths tasks "b" = constraints names ["c"] paths tasks "b" ∧
    constraints added ["c"] paths tasks "d" = constraintsAfter (taskPath paths) tasks "b" "d" ∧
    constraints added ["c"] paths tasks "e" = [
      ⟨":group:e:test", [":d:test", ":d:hammerTest"]⟩,
      ⟨":group:e:hammerTest", [":group:e:test", ":d:hammerTest"]⟩] ∧
    constraints added excluding paths tasks "e" = constraints names ["c"] paths tasks "e" := by
  intro names added excluding paths tasks
  have hadded : ∀ name, name ∈ added ↔ name = ("d" : Text) ∨ name ∈ names := fun _ => List.mem_cons
  have hagain : ∀ name, name ∈ added ↔ name = ("d" : Text) ∨ name ∈ added := by
    intro name
    rw [hadded]
    exact or_self_left.symm
  have hexcluding : ∀ name, name ∈ excluding ↔ name = ("d" : Text) ∨ name ∈ [("c" : Text)] :=
    fun _ => List.mem_cons
  obtain ⟨hnew, -, -⟩ := constraints_added_excluding hadded hexcluding paths tasks
  obtain ⟨hother, -, hself, -, hnext⟩ := hnew (by decide)
  obtain ⟨-, hexcluded, -⟩ := constraints_added_excluding hagain hexcluding paths tasks
  exact ⟨hadded, hexcluding, hother _ (by decide) (by decide), hself _ (by decide) (by decide),
    (hnext _ (by decide) (by decide)).2, hexcluded _⟩

end BuildChain.TestOrder
