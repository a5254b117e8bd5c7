import BuildChain.Proofs.Text.Lines
import BuildChain.Proofs.Text.Split
import BuildChain.Proofs.Text.Utf8

/-! # Texts without halves of pairs

What is cut out of a text that consists of characters consists of characters, and so does what is
put together from such texts.
-/

namespace BuildChain.Text

variable {c : CodePoint} {a line sep t u : Text} {parts : List Text}

theorem IsWhole.of_subset (h : IsWhole t) (hu : u ⊆ t) : IsWhole u :=
  fun c hc => h c (hu hc)

@[simp] theorem isWhole_append : IsWhole (t ++ u) ↔ IsWhole t ∧ IsWhole u :=
  List.forall_mem_append

@[simp] theorem isWhole_cons : IsWhole (c :: t) ↔ c.isLone = false ∧ IsWhole t :=
  List.forall_mem_cons

theorem isWhole_nil : IsWhole [] :=
  List.forall_mem_nil _

theorem isWhole_join (hsep : IsWhole sep) (hparts : ∀ p ∈ parts, IsWhole p) :
    IsWhole (join sep parts) := by
  cases parts with
  | nil => exact isWhole_nil
  | cons p parts =>
    obtain ⟨hp, hparts⟩ := List.forall_mem_cons.mp hparts
    rw [join_cons_eq, isWhole_append]
    refine ⟨hp, fun c hc => ?_⟩
    obtain ⟨q, hq, hc⟩ := List.mem_flatMap.mp hc
    exact isWhole_append.mpr ⟨hsep, hparts q hq⟩ c hc

theorem IsWhole.isStray_eq_false (h : IsWhole t) : ∀ c ∈ t, c.isStray = false := by
  intro c hc
  have hlone := h c hc
  cases c with
  | char c => rfl
  | lone n => cases hlone

theorem IsWhole.skipBlanks (h : IsWhole t) : IsWhole (skipBlanks t) :=
  h.of_subset (List.dropWhile_suffix isBlank).subset

theorem IsWhole.of_after? (h : IsWhole t) (hu : after? a t = some u) : IsWhole u := by
  rw [eq_append_of_after? hu] at h
  exact (isWhole_append.mp h).2

theorem IsWhole.of_mem_pieces {sep : CodePoint → Bool} (h : IsWhole t) (ha : a ∈ pieces sep t) :
    IsWhole a :=
  fun c hc => h c ((mem_pieces ha).2 c hc).1

theorem IsWhole.of_mem_lines (h : IsWhole t) (hline : line ∈ lines t) : IsWhole line := by
  fun_induction lines t generalizing line with
  | case1 => cases hline
  | case2 t ih =>
    rcases List.mem_cons.mp hline with rfl | hline
    · exact isWhole_nil
    · exact ih (isWhole_cons.mp (isWhole_cons.mp h).2).2 hline
  | case3 c t hr hc ih =>
    rcases List.mem_cons.mp hline with rfl | hline
    · exact isWhole_nil
    · exact ih (isWhole_cons.mp h).2 hline
  | case4 c t hr hc hlines ih =>
    obtain rfl := List.mem_singleton.mp hline
    exact isWhole_cons.mpr ⟨(isWhole_cons.mp h).1, isWhole_nil⟩
  | case5 c t hr hc first rest hlines ih =>
    obtain ⟨hchar, h⟩ := isWhole_cons.mp h
    rw [hlines] at ih
    rcases List.mem_cons.mp hline with rfl | hline
    · exact isWhole_cons.mpr ⟨hchar, ih h (.head _)⟩
    · exact ih h (.tail _ hline)

theorem IsWhole.foldNewlines (h : IsWhole t) : IsWhole (foldNewlines t) := by
  fun_induction Text.foldNewlines t with
  | case1 => exact h
  | case2 t ih =>
    exact isWhole_cons.mpr ⟨rfl, ih (isWhole_cons.mp (isWhole_cons.mp h).2).2⟩
  | case3 c t hr ih =>
    obtain ⟨hc, h⟩ := isWhole_cons.mp h
    refine isWhole_cons.mpr ⟨?_, ih h⟩
    split
    · rfl
    · exact hc

end BuildChain.Text
