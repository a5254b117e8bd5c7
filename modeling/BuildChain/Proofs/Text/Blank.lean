import Mathlib.Data.List.DropRight
import BuildChain.Proofs.Text.Split
import BuildChain.Text.Blank

/-! # Laws of blanks and line endings

Blanks in front of a text and around it are skipped. Folding the line endings of a text can be done
part by part, unless a line ending lies on the border.
-/

namespace BuildChain.Text

variable {c : CodePoint} {t w : Text}

theorem skipBlanks_append (h : ∀ c ∈ w, isBlank c = true) :
    skipBlanks (w ++ t) = skipBlanks t :=
  List.dropWhile_append_of_pos h

theorem skipBlanks_cons (h : isBlank c = false) : skipBlanks (c :: t) = c :: t := by
  simp [skipBlanks, h]

theorem strip_of_not_blank {t : Text} (h : ∀ c ∈ t, isBlank c = false) : strip t = t := by
  have hdrop {u : Text} (hu : ∀ c ∈ u, isBlank c = false) : u.dropWhile isBlank = u := by
    cases u with
    | nil => rfl
    | cons c u => exact List.dropWhile_cons_of_neg (by simp [hu c (by simp)])
  rw [strip, trim, trimEnd, hdrop h, hdrop (by simpa using h), List.reverse_reverse]

theorem trimEnd_append (p : CodePoint → Bool) (w t : Text) :
    trimEnd p (w ++ t) = if trimEnd p t = [] then trimEnd p w else w ++ trimEnd p t := by
  simp only [trimEnd, List.reverse_append, List.dropWhile_append, List.isEmpty_iff,
    List.reverse_eq_nil_iff]
  split <;> simp

theorem trimEnd_append_trimEnd (p : CodePoint → Bool) (w t : Text) :
    trimEnd p (w ++ trimEnd p t) = trimEnd p (w ++ t) := by
  have hidempotent : trimEnd p (trimEnd p t) = trimEnd p t := List.rdropWhile_idempotent p t
  rw [trimEnd_append, trimEnd_append, hidempotent]

theorem trimEnd_append_cons {p : CodePoint → Bool} (hc : p c = false) :
    trimEnd p (w ++ c :: t) = w ++ c :: trimEnd p t := by
  have htrim : trimEnd p (c :: t) = c :: trimEnd p t := by
    have := trimEnd_append p [c] t
    by_cases ht : trimEnd p t = [] <;> simp_all [trimEnd]
  rw [trimEnd_append, htrim, if_neg (by simp)]

/-- Both ends of a text can be trimmed in any order. -/
theorem dropWhile_trimEnd (p : CodePoint → Bool) (t : Text) :
    (trimEnd p t).dropWhile p = trimEnd p (t.dropWhile p) := by
  have hw : ∀ c ∈ t.takeWhile p, p c = true := fun c hc => List.mem_takeWhile_imp hc
  have ht : t.takeWhile p ++ t.dropWhile p = t := List.takeWhile_append_dropWhile
  cases hd : t.dropWhile p with
  | nil =>
    rw [hd, List.append_nil] at ht
    rw [← ht]
    have hnil : trimEnd p (t.takeWhile p) = [] := by
      rw [trimEnd, List.reverse_eq_nil_iff, List.dropWhile_eq_nil_iff]
      simpa using hw
    rw [hnil]
    rfl
  | cons c s =>
    have hc : p c = false := by
      have := List.head?_dropWhile_not p t
      simpa [hd] using this
    rw [hd] at ht
    rw [← ht, trimEnd_append_cons hc, List.dropWhile_append_of_pos hw,
      List.dropWhile_cons_of_neg (by simp [hc])]
    exact (trimEnd_append_cons (w := []) hc).symm

/-- Blanks at the end do not matter to a stripped text. -/
theorem strip_congr {u : Text} (h : trimEnd isBlank t = trimEnd isBlank u) : strip t = strip u := by
  rw [strip, trim, ← dropWhile_trimEnd, h, dropWhile_trimEnd, strip, trim]

theorem strip_append (h : ∀ c ∈ w, isBlank c = true) : strip (w ++ t) = strip t := by
  rw [strip, trim, List.dropWhile_append_of_pos h, strip, trim]

theorem strip_of_head_not_blank (h : ∀ c, t.head? = some c → isBlank c = false) :
    strip t = trimEnd isBlank t := by
  cases t with
  | nil => rfl
  | cons c t => rw [strip, trim, List.dropWhile_cons_of_neg (by simp [h c rfl])]

theorem trimEnd_isPrefix (p : CodePoint → Bool) (t : Text) : trimEnd p t <+: t :=
  List.rdropWhile_prefix p t

theorem mem_of_mem_strip (h : c ∈ strip t) : c ∈ t :=
  (List.dropWhile_suffix isBlank).subset ((trimEnd_isPrefix isBlank _).subset h)

/-- What is trimmed at the end does not end in what was dropped. -/
theorem eq_false_of_getLast?_trimEnd {p : CodePoint → Bool} (h : (trimEnd p t).getLast? = some c) :
    p c = false := by
  rw [trimEnd, List.getLast?_reverse] at h
  have := List.head?_dropWhile_not p t.reverse
  rw [h] at this
  simpa using this

theorem eq_false_of_head?_dropWhile {p : CodePoint → Bool} (h : (t.dropWhile p).head? = some c) :
    p c = false := by
  have := List.head?_dropWhile_not p t
  rw [h] at this
  simpa using this

theorem head?_of_isPrefix (hw : w <+: t) (h : w.head? = some c) : t.head? = some c := by
  obtain ⟨u, rfl⟩ := hw
  rw [List.head?_append, h]
  rfl

theorem foldNewlines_append (h : .char '\r' ∉ w) : foldNewlines (w ++ t) = w ++ foldNewlines t := by
  induction w with
  | nil => rfl
  | cons d w ih =>
    simp only [List.mem_cons, not_or] at h
    rw [List.cons_append, foldNewlines, ih h.2, if_neg (Ne.symm h.1), List.cons_append]
    intro u hd
    exact absurd hd.symm h.1

/-- A return and a newline on the two sides of a border would be one line ending. -/
theorem foldNewlines_append_cons (hc : c ≠ '\n') :
    foldNewlines (w ++ c :: t) = foldNewlines w ++ foldNewlines (c :: t) := by
  fun_induction foldNewlines w with
  | case1 => rfl
  | case2 w ih => simp [foldNewlines, ih]
  | case3 d w hd ih =>
    rw [List.cons_append, foldNewlines, ih, List.cons_append]
    intro u hr hu
    cases w with
    | nil => exact hc (by simpa using (List.cons.inj hu).1)
    | cons e w => exact hd w hr (by simpa using (List.cons.inj hu).1)

theorem prefix_of_foldNewlines (hc : c ≠ '\n') (h : [c] <+: foldNewlines w) : [c] <+: w := by
  fun_cases foldNewlines w with
  | case1 => simp [foldNewlines] at h
  | case2 w => exact absurd (List.cons_prefix_cons.mp h).1 hc
  | case3 d w hd =>
    rw [foldNewlines.eq_3 d w hd] at h
    obtain ⟨hcd, -⟩ := List.cons_prefix_cons.mp h
    split at hcd
    · exact absurd hcd hc
    · simp [hcd]

/-- Folding line endings brings no characters together that were apart. -/
theorem infix_of_foldNewlines {a b : CodePoint} (ha : a ≠ '\n') (hb : b ≠ '\n')
    (h : [a, b] <:+: foldNewlines w) : [a, b] <:+: w := by
  fun_induction foldNewlines w with
  | case1 => exact h
  | case2 w ih =>
    rcases List.infix_cons_iff.mp h with h | h
    · exact absurd (List.cons_prefix_cons.mp h).1 ha
    · have hback : w <:+: '\r' :: '\n' :: w := ⟨['\r', '\n'], [], by simp⟩
      exact (ih h).trans hback
  | case3 d w hd ih =>
    rcases List.infix_cons_iff.mp h with h | h
    · obtain ⟨hda, h⟩ := List.cons_prefix_cons.mp h
      split at hda
      · exact absurd hda ha
      · rw [hda]
        exact (List.cons_prefix_cons.mpr ⟨rfl, prefix_of_foldNewlines hb h⟩).isInfix
    · exact (ih h).trans (List.suffix_cons d w).isInfix

theorem foldNewlines_block (p t : Text) :
    foldNewlines (.char '/' :: (.char '*' :: p ++ ([.char '*', .char '/'] : Text)) ++ t) =
      .char '/' :: (.char '*' :: foldNewlines p ++ ([.char '*', .char '/'] : Text)) ++
        foldNewlines t := by
  have hparts : .char '/' :: (.char '*' :: p ++ ([.char '*', .char '/'] : Text)) ++ t =
      [.char '/', .char '*'] ++ (p ++ .char '*' :: ([CodePoint.char '/'] ++ t)) := by simp
  have hend : foldNewlines (.char '*' :: ([CodePoint.char '/'] ++ t)) =
      .char '*' :: .char '/' :: foldNewlines t := rfl
  rw [hparts, foldNewlines_append (by decide), foldNewlines_append_cons (by decide), hend]
  simp

end BuildChain.Text
