import Mathlib.Data.List.Basic
import BuildChain.TestOrder

/-! # Predecessors by position

In an order without repetitions a name is found at one position only, and its predecessor stands
right before it. In any ascending order the predecessor is the greatest of the smaller names, so
repetitions do not matter.
-/

namespace BuildChain.TestOrder

variable {order : List Text} {p q : Text}

theorem nodup_of_pairwise (h : order.Pairwise (· < ·)) : order.Nodup := by
  apply h.imp
  rintro t _ h rfl
  exact List.lt_irrefl t h

theorem nodup_ordered (names excluded : List Text) : (ordered names excluded).Nodup :=
  nodup_of_pairwise (pairwise_ordered names excluded)

/-- Only the members matter to what is sorted. -/
theorem sortDistinct_inj {ts us : List Text} :
    sortDistinct ts = sortDistinct us ↔ ∀ t, t ∈ ts ↔ t ∈ us := by
  constructor
  · intro h t
    rw [← mem_sortDistinct, h, mem_sortDistinct]
  · intro h
    have hts := pairwise_sortDistinct ts
    have hus := pairwise_sortDistinct us
    have hperm : (sortDistinct ts).Perm (sortDistinct us) := by
      rw [List.perm_ext_iff_of_nodup (nodup_of_pairwise hts) (nodup_of_pairwise hus)]
      intro t
      rw [mem_sortDistinct, mem_sortDistinct, h]
    apply hperm.eq_of_pairwise _ hts hus
    intro t u _ _ htu hut
    exact absurd hut (List.lt_asymm htu)

theorem ordered_congr {names names' excluded excluded' : List Text}
    (hnames : ∀ t, t ∈ names ↔ t ∈ names') (hexcluded : ∀ t, t ∈ excluded ↔ t ∈ excluded') :
    ordered names excluded = ordered names' excluded' := by
  refine sortDistinct_inj.mpr fun t => ?_
  simp [hnames, hexcluded]

theorem position?_eq_some_iff {n : Nat} :
    position? order p = some n ↔ p ∈ order ∧ order.idxOf p = n := by
  rw [position?, List.idxOf_eq_getD_idxOf?]
  cases h : order.idxOf? p with
  | none => simp [List.idxOf?_eq_none_iff.mp h]
  | some m =>
    have hp : p ∈ order := List.isSome_idxOf?.mp (by simp [h])
    simp [hp]

theorem getElem?_idxOf_of_mem (h : p ∈ order) : order[order.idxOf p]? = some p := by
  rw [List.getElem?_eq_getElem (List.idxOf_lt_length_of_mem h), List.getElem_idxOf]

theorem idxOf_of_getElem? (hn : order.Nodup) {n : Nat} (h : order[n]? = some p) :
    order.idxOf p = n := by
  obtain ⟨hlt, rfl⟩ := List.getElem?_eq_some_iff.mp h
  exact hn.idxOf_getElem n hlt

/-- The predecessor stands one place further ahead. -/
theorem predecessorIn?_eq_some_iff (hn : order.Nodup) :
    predecessorIn? order p = some q ↔
      p ∈ order ∧ q ∈ order ∧ order.idxOf q + 1 = order.idxOf p := by
  unfold predecessorIn?
  constructor
  · intro h
    split at h
    · next n hp =>
      obtain ⟨hp, he⟩ := position?_eq_some_iff.mp hp
      exact ⟨hp, List.mem_of_getElem? h, by rw [idxOf_of_getElem? hn h, he]⟩
    · simp at h
  · rintro ⟨hp, hq, he⟩
    rw [position?_eq_some_iff.mpr ⟨hp, he.symm⟩]
    exact getElem?_idxOf_of_mem hq

/-- Every member but the first has a predecessor. -/
theorem exists_predecessorIn?_iff (hn : order.Nodup) (hp : p ∈ order) :
    (∃ q, predecessorIn? order p = some q) ↔ order.head? ≠ some p := by
  have hz : order.head? = some p ↔ order.idxOf p = 0 := by
    rw [List.head?_eq_getElem?]
    exact ⟨idxOf_of_getElem? hn, fun h => h ▸ getElem?_idxOf_of_mem hp⟩
  rw [ne_eq, hz]
  constructor
  · rintro ⟨q, hq⟩
    have := ((predecessorIn?_eq_some_iff hn).mp hq).2.2
    omega
  · intro h
    obtain ⟨n, he⟩ := Nat.exists_eq_succ_of_ne_zero h
    have hlt : n < order.length := by
      have := List.idxOf_lt_length_of_mem hp
      omega
    have hq : order[n]? = some order[n] := List.getElem?_eq_getElem hlt
    refine ⟨order[n], (predecessorIn?_eq_some_iff hn).mpr ⟨hp, List.getElem_mem hlt, ?_⟩⟩
    rw [idxOf_of_getElem? hn hq, he]

theorem predecessorIn?_append_cons {before after : List Text} (h : p ∉ before) :
    predecessorIn? (before ++ p :: after) p = before.getLast? := by
  have hp : position? (before ++ p :: after) p = some before.length := by
    rw [position?_eq_some_iff, List.idxOf_append_of_notMem h]
    simp
  unfold predecessorIn?
  rw [hp]
  rcases List.eq_nil_or_concat before with rfl | ⟨front, q, rfl⟩
  · rfl
  · simp

theorem predecessorIn?_of_eq_append {before after : List Text} (hn : order.Nodup)
    (h : order = before ++ p :: after) : predecessorIn? order p = before.getLast? := by
  rw [h] at hn ⊢
  exact predecessorIn?_append_cons fun hp =>
    (List.nodup_append.mp hn).2.2 p hp p List.mem_cons_self rfl

theorem predecessorIn?_of_notMem (h : p ∉ order) : predecessorIn? order p = none := by
  have hp : position? order p = none := List.idxOf?_eq_none_iff.mpr h
  unfold predecessorIn?
  rw [hp]

theorem constraints_eq (names excluded : List Text) (paths : Text → Option Text)
    (tasks : TestTasks) (active : Text) :
    constraints names excluded paths tasks active =
      match predecessor? names excluded active with
      | some predecessor => constraintsAfter (taskPath paths) tasks predecessor active
      | none => [] := rfl

/-- The names are in ascending order, and may be repeated. -/
def Ascending (names : List Text) : Prop :=
  names.Pairwise fun t u => ¬ u < t

/-- What stands before the first occurrence of a name in ascending order are the smaller names. -/
theorem mem_before_iff {before after : List Text} (hs : Ascending (before ++ p :: after))
    (h : p ∉ before) : q ∈ before ↔ q ∈ before ++ p :: after ∧ q < p := by
  obtain ⟨-, hsa, hba⟩ := List.pairwise_append.mp hs
  constructor
  · intro hq
    refine ⟨List.mem_append_left _ hq, lt_of_not_lt (hba q hq p List.mem_cons_self) ?_⟩
    rintro rfl
    exact h hq
  · rintro ⟨hq, hlt⟩
    rcases List.mem_append.mp hq with hq | hq
    · exact hq
    · rcases List.mem_cons.mp hq with rfl | hq
      · exact absurd hlt (List.lt_irrefl q)
      · exact absurd hlt ((List.pairwise_cons.mp hsa).1 q hq)

theorem getLast?_eq_some_iff_greatest (hs : Ascending order) :
    order.getLast? = some q ↔ q ∈ order ∧ ∀ r ∈ order, ¬ q < r := by
  rcases List.eq_nil_or_concat order with rfl | ⟨front, t, rfl⟩
  · simp
  · rw [List.concat_eq_append] at hs ⊢
    have ht : ∀ r ∈ front ++ [t], ¬ t < r := by
      intro r hr
      rcases List.mem_append.mp hr with hr | hr
      · exact (List.pairwise_append.mp hs).2.2 r hr t (by simp)
      · rw [List.mem_singleton.mp hr]
        exact List.lt_irrefl t
    rw [List.getLast?_concat, Option.some_inj]
    constructor
    · rintro rfl
      exact ⟨by simp, ht⟩
    · rintro ⟨hq, hgreatest⟩
      by_contra hne
      exact hgreatest t (by simp) (lt_of_not_lt (ht q hq) hne)

/-- In ascending order the first occurrence of a name follows the greatest of the smaller names. -/
theorem predecessorIn?_eq_some_iff_greatest (hs : Ascending order) :
    predecessorIn? order p = some q ↔
      p ∈ order ∧ (q ∈ order ∧ q < p) ∧ ∀ r ∈ order, r < p → ¬ q < r := by
  by_cases hp : p ∈ order
  · obtain ⟨before, after, rfl, hbefore⟩ := List.eq_append_cons_of_mem hp
    rw [predecessorIn?_append_cons hbefore,
      getLast?_eq_some_iff_greatest (List.pairwise_append.mp hs).1, ← mem_before_iff hs hbefore]
    constructor
    · rintro ⟨hq, hgreatest⟩
      exact ⟨hp, hq, fun r hr hlt => hgreatest r ((mem_before_iff hs hbefore).mpr ⟨hr, hlt⟩)⟩
    · rintro ⟨-, hq, hgreatest⟩
      refine ⟨hq, fun r hr => ?_⟩
      obtain ⟨hr, hlt⟩ := (mem_before_iff hs hbefore).mp hr
      exact hgreatest r hr hlt
  · rw [predecessorIn?_of_notMem hp]
    constructor
    · rintro ⟨⟩
    · exact fun h => absurd h.1 hp

/-- The first of the names has no predecessor, and neither has a name that is not among them. -/
theorem predecessorIn?_eq_none_iff (hs : Ascending order) :
    predecessorIn? order p = none ↔ p ∉ order ∨ ∀ r ∈ order, ¬ r < p := by
  by_cases hp : p ∈ order
  · obtain ⟨before, after, rfl, hbefore⟩ := List.eq_append_cons_of_mem hp
    rw [predecessorIn?_append_cons hbefore, List.getLast?_eq_none_iff,
      List.eq_nil_iff_forall_not_mem, or_iff_right (not_not_intro hp)]
    constructor
    · intro hnone r hr hlt
      exact hnone r ((mem_before_iff hs hbefore).mpr ⟨hr, hlt⟩)
    · intro hfirst r hr
      obtain ⟨hr, hlt⟩ := (mem_before_iff hs hbefore).mp hr
      exact hfirst r hr hlt
  · exact iff_of_true (predecessorIn?_of_notMem hp) (Or.inl hp)

/-- Ascending orders of the same names give the same predecessors. -/
theorem predecessorIn?_congr {order' : List Text} (hs : Ascending order)
    (hs' : Ascending order') (h : ∀ r, r ∈ order ↔ r ∈ order') :
    predecessorIn? order p = predecessorIn? order' p := by
  ext q
  rw [predecessorIn?_eq_some_iff_greatest hs, predecessorIn?_eq_some_iff_greatest hs']
  simp only [h]

end BuildChain.TestOrder
