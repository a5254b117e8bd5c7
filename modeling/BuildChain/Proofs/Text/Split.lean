import Mathlib.Data.List.Basic
import Mathlib.Data.List.TakeWhile
import BuildChain.Text.Basic

/-! # Texts around a separator

A text can be taken apart at a separator in one way only, if one side is known not to hold it.
Cutting a text that was put together from pieces gives the pieces back, and what follows a known
start is found again.
-/

namespace BuildChain.Text

variable {c : CodePoint} {p q s t u v w : Text}

/-- Texts are equal if they agree before and after the first separator. -/
theorem append_cons_inj (hp : c ∉ p) (hq : c ∉ q) :
    p ++ c :: t = q ++ c :: u ↔ p = q ∧ t = u := by
  induction p generalizing q with
  | nil => cases q <;> simp_all [eq_comm]
  | cons d p ih =>
    cases q with
    | nil => simp_all [eq_comm]
    | cons e q =>
      simp only [List.mem_cons, not_or] at hp hq
      simp [ih hp.2 hq.2, and_assoc]

/-- Texts are equal if they agree before and after the last separator. -/
theorem append_cons_inj' (ht : c ∉ t) (hu : c ∉ u) :
    p ++ c :: t = q ++ c :: u ↔ p = q ∧ t = u := by
  rw [← List.reverse_inj]
  simp only [List.reverse_append, List.reverse_cons, List.append_assoc, List.singleton_append]
  rw [append_cons_inj (by simpa using ht) (by simpa using hu)]
  simp [and_comm]

/-- A character that a text does not hold stands after it. -/
theorem exists_of_append_cons (hc : c ∉ w) (h : u ++ c :: v = w ++ t) :
    ∃ p, u = w ++ p ∧ t = p ++ c :: v := by
  rcases List.append_eq_append_iff.mp h with ⟨p, rfl, hp⟩ | ⟨p, rfl, rfl⟩
  · cases p with
    | nil => exact ⟨[], by simp, hp.symm⟩
    | cons d p =>
      obtain ⟨rfl, -⟩ := List.cons.inj hp
      simp at hc
  · exact ⟨p, rfl, rfl⟩

theorem afterLast_append_cons (ht : c ∉ t) : afterLast c (s ++ c :: t) = t := by
  have hkeep : ∀ d ∈ t.reverse, (d != c) = true := by
    intro d hd
    rw [List.mem_reverse] at hd
    exact bne_iff_ne.mpr fun he => ht (he ▸ hd)
  simp [afterLast, List.takeWhile_append_of_pos hkeep]

theorem notMem_afterLast (t : Text) : c ∉ afterLast c t := by
  intro h
  have hc := List.mem_takeWhile_imp (List.mem_reverse.mp h)
  simp at hc

theorem mem_of_mem_afterLast {d : CodePoint} (h : d ∈ afterLast c t) : d ∈ t :=
  List.mem_reverse.mp ((List.takeWhile_prefix _).subset (List.mem_reverse.mp h))

theorem afterLast_of_notMem (h : c ∉ t) : afterLast c t = t := by
  have hkeep : ∀ d ∈ t.reverse, (d != c) = true := by
    intro d hd
    rw [bne_iff_ne]
    rintro rfl
    exact h (List.mem_reverse.mp hd)
  rw [afterLast, List.takeWhile_eq_self_iff.mpr hkeep, List.reverse_reverse]

/-- Nothing in front of a separator matters for what follows the last one. -/
theorem afterLast_cons (s t : Text) : afterLast c (s ++ c :: t) = afterLast c t := by
  by_cases ht : c ∈ t
  · obtain ⟨back, front, hreverse, hback⟩ :=
      List.eq_append_cons_of_mem (List.mem_reverse.mpr ht)
    obtain rfl : t = front.reverse ++ c :: back.reverse := by
      rw [← List.reverse_reverse t, hreverse]
      simp
    have hback : c ∉ back.reverse := by simpa using hback
    rw [afterLast_append_cons hback, ← List.cons_append, ← List.append_assoc,
      afterLast_append_cons hback]
  · rw [afterLast_append_cons ht, afterLast_of_notMem ht]

theorem split_of_forall_not {sep : CodePoint → Bool} (h : ∀ d ∈ t, sep d = false) :
    split sep t = [t] := by
  induction t with
  | nil => rfl
  | cons d t ih =>
    obtain ⟨hd, h⟩ := List.forall_mem_cons.mp h
    simp [split, hd, ih h]

theorem split_of_notMem (h : c ∉ t) : split (· == c) t = [t] :=
  split_of_forall_not fun _ hd => beq_false_of_ne (ne_of_mem_of_not_mem hd h)

theorem pieces_append_cons {sep : CodePoint → Bool} (hc : sep c) (s t : Text) :
    pieces sep (s ++ c :: t) = pieces sep s ++ pieces sep t := by
  simp [pieces, split_append_cons hc]

theorem pieces_of_forall_not {sep : CodePoint → Bool} (hne : t ≠ []) (h : ∀ d ∈ t, sep d = false) :
    pieces sep t = [t] := by
  simp [pieces, split_of_forall_not h, hne]

theorem pieces_of_notMem (hne : t ≠ []) (h : c ∉ t) : pieces (· == c) t = [t] := by
  simp [pieces, split_of_notMem h, hne]

theorem pieces_skip {sep : CodePoint → Bool} (hw : ∀ d ∈ w, sep d = true) (t : Text) :
    pieces sep (w ++ t) = pieces sep t := by
  induction w with
  | nil => rfl
  | cons d w ih =>
    obtain ⟨hd, hw⟩ := List.forall_mem_cons.mp hw
    have hcut : pieces sep ([] ++ d :: (w ++ t)) = pieces sep [] ++ pieces sep (w ++ t) :=
      pieces_append_cons hd [] (w ++ t)
    rw [← ih hw]
    exact hcut

/-- A run of separators cuts a text in two, whatever separators stand at its borders. -/
theorem pieces_append_run {sep : CodePoint → Bool} (hne : w ≠ []) (hw : ∀ d ∈ w, sep d = true)
    (s t : Text) : pieces sep (s ++ w ++ t) = pieces sep s ++ pieces sep t := by
  obtain ⟨d, w, rfl⟩ := List.exists_cons_of_ne_nil hne
  obtain ⟨hd, hw⟩ := List.forall_mem_cons.mp hw
  rw [List.append_assoc, List.cons_append, pieces_append_cons hd, pieces_skip hw]

/-- Pieces that are put after a separator each are found again. -/
theorem pieces_append_flatMap {parts : List Text} (h : ∀ p ∈ parts, p ≠ [] ∧ c ∉ p) (s : Text) :
    pieces (· == c) (s ++ parts.flatMap (c :: ·)) = pieces (· == c) s ++ parts := by
  induction parts generalizing s with
  | nil => simp
  | cons p parts ih =>
    obtain ⟨⟨hne, hc⟩, h⟩ := List.forall_mem_cons.mp h
    rw [List.flatMap_cons, List.cons_append, pieces_append_cons (by simp), ih h,
      pieces_of_notMem hne hc]
    rfl

/-- The parts after the first stand after the separator each. -/
theorem join_cons_eq (sep s : Text) (parts : List Text) :
    join sep (s :: parts) = s ++ parts.flatMap (sep ++ ·) := by
  induction parts generalizing s with
  | nil => simp [join]
  | cons p parts ih => rw [join, List.intercalate_cons_cons, List.flatMap_cons, List.append_assoc,
      List.append_assoc, ← ih]

theorem join_cons (s : Text) (parts : List Text) :
    join [c] (s :: parts) = s ++ parts.flatMap (c :: ·) :=
  join_cons_eq [c] s parts

theorem join_append {ss ts : List Text} (hs : ss ≠ []) (ht : ts ≠ []) :
    join [c] (ss ++ ts) = join [c] ss ++ c :: join [c] ts := by
  obtain ⟨s, ss, rfl⟩ := List.exists_cons_of_ne_nil hs
  obtain ⟨t, ts, rfl⟩ := List.exists_cons_of_ne_nil ht
  rw [List.cons_append, join_cons, join_cons, join_cons, List.flatMap_append, List.flatMap_cons,
    List.append_assoc, List.cons_append]

/-- Pieces that were joined are found again. -/
theorem pieces_join {parts : List Text} (h : ∀ p ∈ parts, p ≠ [] ∧ c ∉ p) :
    pieces (· == c) (join [c] parts) = parts := by
  cases parts with
  | nil => rfl
  | cons p parts =>
    obtain ⟨⟨hne, hc⟩, h⟩ := List.forall_mem_cons.mp h
    rw [join_cons, pieces_append_flatMap h, pieces_of_notMem hne hc]
    rfl

/-- A text without separators in front of a separator is the first part. -/
theorem split_append_cons_of_notMem (h : c ∉ s) (t : Text) :
    split (· == c) (s ++ c :: t) = s :: split (· == c) t := by
  rw [split_append_cons (by simp), split_of_notMem h, List.singleton_append]

theorem split_append_flatMap {parts : List Text} (hs : c ∉ s) (h : ∀ p ∈ parts, c ∉ p) :
    split (· == c) (s ++ parts.flatMap (c :: ·)) = s :: parts := by
  induction parts generalizing s with
  | nil => simp [split_of_notMem hs]
  | cons p parts ih =>
    obtain ⟨hp, h⟩ := List.forall_mem_cons.mp h
    rw [List.flatMap_cons, List.cons_append, split_append_cons_of_notMem hs, ih hp h]

/-- Parts that were joined are found again, the empty ones as well. -/
theorem split_join {parts : List Text} (hne : parts ≠ []) (h : ∀ p ∈ parts, c ∉ p) :
    split (· == c) (join [c] parts) = parts := by
  obtain ⟨s, parts, rfl⟩ := List.exists_cons_of_ne_nil hne
  obtain ⟨hs, h⟩ := List.forall_mem_cons.mp h
  rw [join_cons, split_append_flatMap hs h]

/-- The parts of a text make up the text. -/
theorem join_split (t : Text) : join [c] (split (· == c) t) = t := by
  induction t with
  | nil => rfl
  | cons d t ih =>
    obtain ⟨p, parts, hparts⟩ := List.exists_cons_of_ne_nil (split_ne_nil (· == c) t)
    rw [hparts, join_cons] at ih
    by_cases hd : d = c
    · subst hd
      simp [split, hparts, join_cons, ih]
    · simp [split, hparts, hd, join_cons, ih]

/-- A character that is no separator is the last one of the last part. -/
theorem exists_split_concat {d : CodePoint} (hd : d ≠ c) (t : Text) :
    ∃ front last, split (· == c) (t ++ [d]) = front ++ [last ++ [d]] := by
  induction t with
  | nil => exact ⟨[], [], by simp [split, hd]⟩
  | cons e t ih =>
    obtain ⟨front, last, h⟩ := ih
    by_cases he : e = c
    · exact ⟨[] :: front, last, by simp [split, he, h]⟩
    · cases front with
      | nil => exact ⟨[], e :: last, by simp [split, he, h]⟩
      | cons p front => exact ⟨(e :: p) :: front, last, by simp [split, he, h]⟩

theorem after?_append (s t : Text) : after? s (s ++ t) = some t := by
  induction s with
  | nil => rfl
  | cons c s ih => rw [List.cons_append, after?, if_pos rfl, ih]

theorem eq_append_of_after? (h : after? s t = some u) : t = s ++ u := by
  induction s generalizing t with
  | nil => simpa [after?] using h
  | cons c s ih =>
    cases t with
    | nil => simp [after?] at h
    | cons d t =>
      rw [after?] at h
      split at h
      · next he => rw [List.cons_append, ← ih h, he]
      · cases h

theorem takeWhile_append_cons {p : CodePoint → Bool} (hs : ∀ d ∈ s, p d = true) (hc : p c = false) :
    (s ++ c :: t).takeWhile p = s := by
  rw [List.takeWhile_append_of_pos hs, List.takeWhile_cons_of_neg (by simp [hc]), List.append_nil]

theorem dropWhile_append_cons {p : CodePoint → Bool} (hs : ∀ d ∈ s, p d = true) (hc : p c = false) :
    (s ++ c :: t).dropWhile p = c :: t := by
  rw [List.dropWhile_append_of_pos hs, List.dropWhile_cons_of_neg (by simp [hc])]

end BuildChain.Text
