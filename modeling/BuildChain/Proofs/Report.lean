import Mathlib.Data.List.Basic
import Mathlib.Logic.Basic
import BuildChain.Conventions
import BuildChain.Proofs.TestOrder.Predecessor
import BuildChain.Report

/-! # What a report says

The report names each project of a build once: with its number and its predecessor in the test
order, or among the names that take no part. It never asks for a predecessor, for the one of a
project is the project that it has just named.
-/

namespace BuildChain

open TestOrder

variable {names excluded : List Text} {p : Text}

theorem Text.length_ofNat_le {m n : Nat} (h : m ≤ n) :
    (Text.ofNat m).length ≤ (Text.ofNat n).length := by
  have hpos : 0 < (Nat.toDigits 10 n).length := Nat.length_toDigits_pos
  have hn : n < 10 ^ (Nat.toDigits 10 n).length :=
    (Nat.length_toDigits_le_iff (by decide) hpos).mp (Nat.le_refl _)
  rw [ofNat, ofNat, List.length_map, List.length_map]
  exact (Nat.length_toDigits_le_iff (by decide) hpos).mpr (Nat.lt_of_le_of_lt h hn)

namespace TestOrder

theorem predecessor?_eq_none_iff {i : Nat} (h : (ordered names excluded)[i]? = some p) :
    predecessor? names excluded p = none ↔ i = 0 := by
  have hn := nodup_ordered names excluded
  have hfirst : (ordered names excluded).head? = some p ↔ i = 0 := by
    rw [← idxOf_of_getElem? hn h, List.head?_eq_getElem?]
    constructor
    · intro hzero
      exact idxOf_of_getElem? hn hzero
    · intro hzero
      rw [← hzero]
      exact getElem?_idxOf_of_mem (List.mem_of_getElem? h)
  have hsome := exists_predecessorIn?_iff hn (List.mem_of_getElem? h)
  rw [← hfirst, Option.eq_none_iff_forall_ne_some]
  constructor
  · intro hnone
    by_contra hne
    obtain ⟨q, hq⟩ := hsome.mpr hne
    exact hnone q hq
  · intro hhead q hq
    exact hsome.mp ⟨q, hq⟩ hhead

/-- A project has constraints if and only if it has a predecessor. -/
theorem constraintsIn_eq_nil_iff {order : List Text} {path : (name task : Text) → Text}
    {tasks : TestTasks} : constraintsIn order path tasks p = [] ↔ predecessorIn? order p = none := by
  unfold constraintsIn
  cases predecessorIn? order p <;> simp [constraintsAfter]

end TestOrder

namespace Report

/-- What the line of a project says of its predecessor. -/
def place : Option Text → Text
  | some predecessor => "(after " ++ predecessor ++ ")"
  | none => "(first)"

/-- The text stands at the right of a column, behind blanks. -/
structure RightAligned (width : Nat) (t column : Text) : Prop where
  length_column : column.length = width
  exists_blanks : ∃ n, column = List.replicate n (.char ' ') ++ t

theorem rightAligned_padLeft {width : Nat} {t : Text} (h : t.length ≤ width) :
    RightAligned width t (Text.padLeft width t) := by
  refine ⟨?_, _, rfl⟩
  rw [Text.padLeft, List.length_append, List.length_replicate]
  omega

theorem numberedLine_eq (width number : Nat) (predecessor : Option Text) (name : Text) :
    numberedLine width number predecessor name =
      "  " ++ Text.padLeft width (Text.ofNat number) ++ ". " ++ name ++ "  " ++
        place predecessor := by
  unfold numberedLine place
  rfl

/-- The lines of the projects from `number` on, given their constraints. A project that has some is
said to come after `previous`, the one before it. -/
def constrainedLines (width : Nat) : (number : Nat) → (previous : Text) →
    List (Text × List Constraint) → List Text
  | _, _, [] => []
  | number, previous, (name, constraints) :: rest =>
    numberedLine width number (if constraints = [] then none else some previous) name ::
      constrainedLines width (number + 1) name rest

section Numbered

variable {order before after : List Text} (hn : order.Nodup)

include hn

/-- The project that was named before the rest of the order is the predecessor of the next. -/
theorem numberedLines_eq (width : Nat) (horder : order = before ++ after) :
    numberedLines width (before.length + 1) before.getLast? after =
      after.mapIdx fun i p =>
        numberedLine width (before.length + i + 1) (predecessorIn? order p) p := by
  induction after generalizing before with
  | nil => rfl
  | cons p after ih =>
    have hrest := @ih (before ++ [p]) (by simp [horder])
    rw [List.getLast?_concat, List.length_append, List.length_singleton] at hrest
    rw [numberedLines, hrest, List.mapIdx_cons, predecessorIn?_of_eq_append hn horder]
    simp [Nat.add_assoc, Nat.add_comm 1]

/-- What `previous` is does not matter to the first project, for it has no constraints. -/
theorem constrainedLines_eq (width number : Nat) (path : (name task : Text) → Text)
    (tasks : TestTasks) {previous : Text} (horder : order = before ++ after)
    (hprevious : ∀ q, before.getLast? = some q → previous = q) :
    constrainedLines width number previous
        (after.map fun p => (p, constraintsIn order path tasks p)) =
      numberedLines width number before.getLast? after := by
  induction after generalizing before number previous with
  | nil => rfl
  | cons p after ih =>
    have hplace : (if constraintsIn order path tasks p = [] then none else some previous) =
        before.getLast? := by
      have hnext := predecessorIn?_of_eq_append hn horder
      cases hlast : before.getLast? with
      | none => rw [if_pos (constraintsIn_eq_nil_iff.mpr (hnext.trans hlast))]
      | some q =>
        have hne : constraintsIn order path tasks p ≠ [] := by
          rw [ne_eq, constraintsIn_eq_nil_iff, hnext, hlast]
          exact Option.some_ne_none q
        rw [if_neg hne, hprevious q hlast]
    have hrest := @ih (before ++ [p]) (number + 1) p (by simp [horder]) (by simp)
    rw [List.getLast?_concat] at hrest
    rw [List.map_cons, constrainedLines, numberedLines, hplace, hrest]

end Numbered

theorem mem_skipped : p ∈ skipped names excluded ↔ p ∈ names ∧ p ∈ excluded := by
  simp [skipped]

theorem skippedLines_eq (names : List Text) :
    skippedLines names =
      if names = [] then []
      else [] :: ("Excluded from ordering:" : Text) :: names.map (("  - " : Text) ++ ·) := by
  simp only [skippedLines, List.isEmpty_iff]

/-- A report numbers the projects that take part in ascending order, each with its predecessor, in
a column that is as wide as the last number. It says the same when it tells from the constraints
which projects have a predecessor: all but the first. The names that take no part follow in
ascending order, and each name of the build is either among them or among the numbered ones. -/
theorem text_numbered_skipped (names : List Text) (conventions : Conventions) :
    let excluded := conventions.excluded
    let order := ordered names excluded
    let left := skipped names excluded
    let width := (Text.ofNat order.length).length
    (∃ column : Nat → Text,
      let numbered := order.mapIdx fun i p =>
        "  " ++ column i ++ ". " ++ p ++ "  " ++ place (predecessor? names excluded p)
      (∀ i < order.length, RightAligned width (Text.ofNat (i + 1)) (column i)) ∧
      text names excluded = Text.ofLines (
        ("Sequential test order (" ++ Text.ofNat order.length ++ " projects):") ::
        numbered ++
        (if left = [] then []
          else [] :: ("Excluded from ordering:" : Text) :: left.map (("  - " : Text) ++ ·)) ++
        [[]]) ∧
      ∀ previous,
        constrainedLines width 1 previous (all names excluded conventions.tasks) = numbered) ∧
    (order.Pairwise (· < ·) ∧ ∀ p, p ∈ order ↔ p ∈ names ∧ p ∉ excluded) ∧
    (∀ i p, order[i]? = some p → (predecessor? names excluded p = none ↔ i = 0)) ∧
    (left.Pairwise (· < ·) ∧ ∀ p, p ∈ left ↔ p ∈ names ∧ p ∈ excluded) ∧
    ∀ p ∈ names, Xor (p ∈ order) (p ∈ left) := by
  intro excluded order left width
  have hn := nodup_ordered names excluded
  refine ⟨?_, ⟨pairwise_ordered _ _, fun _ => mem_ordered⟩, fun _ _ => predecessor?_eq_none_iff,
    ⟨pairwise_sortDistinct _, fun _ => mem_skipped⟩, ?_⟩
  · have hnumbered := numberedLines_eq hn width (List.nil_append _).symm
    simp only [List.length_nil, Nat.zero_add, List.getLast?_nil, numberedLine_eq] at hnumbered
    refine ⟨fun i => Text.padLeft width (Text.ofNat (i + 1)), ?_, ?_, ?_⟩
    · intro i hi
      exact rightAligned_padLeft (Text.length_ofNat_le hi)
    · rw [text, lines, hnumbered, skippedLines_eq]
      rfl
    · intro previous
      exact (constrainedLines_eq hn _ 1 _ _ (List.nil_append _).symm (by simp)).trans hnumbered
  · intro p hp
    by_cases hexcluded : p ∈ excluded
    · exact Or.inr ⟨mem_skipped.mpr ⟨hp, hexcluded⟩, fun h => (mem_ordered.mp h).2 hexcluded⟩
    · exact Or.inl ⟨mem_ordered.mpr ⟨hp, hexcluded⟩, fun h => hexcluded (mem_skipped.mp h).2⟩

end Report

end BuildChain
