import BuildChain.Proofs.Text.Scan

/-! # The positions of a scan

What a scan finds can be read where it stands. What can be read is found, unless a form that was
found before it reaches beyond its start. So a scan finds nothing only if no form can be read
anywhere.
-/

namespace BuildChain.Text

variable {α : Type} {read : Reader α} {before : Option CodePoint} {c : CodePoint} {skip : Nat}
  {value : α}
  {r : α × Text} {t u v w : Text}

theorem exists_read_of_mem_marksFrom
    (h : value ∈ (marksFrom read skip before t).filterMap Mark.value?) :
    ∃ u c v rest, t = u ++ c :: v ∧
      read (u.getLast?.or before) (c :: v) = some (value, rest) := by
  fun_induction marksFrom read skip before t with
  | case1 => simp at h
  | case2 skip before c t ih =>
    obtain ⟨u, d, v, rest, rfl, hread⟩ := ih (by simpa [Mark.value?] using h)
    exact ⟨c :: u, d, v, rest, rfl, by rwa [getLast?_cons_or]⟩
  | case3 before c t first rest hread ih =>
    have h : value = first ∨ value ∈ (marksFrom read (t.length - rest.length) (some c) t).filterMap
        Mark.value? := by simpa [Mark.value?] using h
    rcases h with rfl | h
    · exact ⟨[], c, t, rest, rfl, hread⟩
    · obtain ⟨u, d, v, rest, rfl, hread⟩ := ih h
      exact ⟨c :: u, d, v, rest, rfl, by rwa [getLast?_cons_or]⟩
  | case4 before c t hread ih =>
    obtain ⟨u, d, v, rest, rfl, hread⟩ := ih (by simpa [Mark.value?] using h)
    exact ⟨c :: u, d, v, rest, rfl, by rwa [getLast?_cons_or]⟩

/-- The induction is on what stands before the form, up to the first form that is found there and
reaches into it. -/
theorem exists_found_marksFrom (hread : read (u.getLast?.or before) (c :: v) = some r)
    (hskip : skip ≤ u.length) :
    ∃ u₁ u₂ value rest, u = u₁ ++ u₂ ∧
      read (u₁.getLast?.or before) (u₂ ++ c :: v) = some (value, rest) ∧
      value ∈ (marksFrom read skip before (u ++ c :: v)).filterMap Mark.value? ∧
      (u₂ = [] ∨ rest.length ≤ v.length) := by
  induction u generalizing skip before with
  | nil =>
    obtain rfl : skip = 0 := by simpa using hskip
    have hread : read before (c :: v) = some r := hread
    refine ⟨[], [], r.1, r.2, rfl, hread, ?_, .inl rfl⟩
    simp [marksFrom, hread, Mark.value?]
  | cons d u ih =>
    rw [getLast?_cons_or] at hread
    -- what is found after the first character is found in the whole text
    have hfurther {skip' : Nat} (hle : skip' ≤ u.length) {m : Mark α}
        (hm : marksFrom read skip before (d :: (u ++ c :: v)) =
          m :: marksFrom read skip' (some d) (u ++ c :: v)) :
        ∃ u₁ u₂ value rest, d :: u = u₁ ++ u₂ ∧
          read (u₁.getLast?.or before) (u₂ ++ c :: v) = some (value, rest) ∧
          value ∈ (marksFrom read skip before (d :: u ++ c :: v)).filterMap Mark.value? ∧
          (u₂ = [] ∨ rest.length ≤ v.length) := by
      obtain ⟨u₁, u₂, value, rest, rfl, hfound, hmem, hend⟩ := ih hread hle
      refine ⟨d :: u₁, u₂, value, rest, rfl, by rwa [getLast?_cons_or], ?_, hend⟩
      rw [List.cons_append, hm, List.filterMap_cons]
      cases m.value? with
      | none => exact hmem
      | some _ => exact .tail _ hmem
    cases skip with
    | succ skip => exact hfurther (by simpa using hskip) rfl
    | zero =>
      cases hfirst : read before (d :: (u ++ c :: v)) with
      | none => exact hfurther (Nat.zero_le _) (m := .free d) (by simp [marksFrom, hfirst])
      | some first =>
        have hm : marksFrom read 0 before (d :: (u ++ c :: v)) = .start first.1 ::
            marksFrom read ((u ++ c :: v).length - first.2.length) (some d) (u ++ c :: v) := by
          simp [marksFrom, hfirst]
        by_cases hle : (u ++ c :: v).length - first.2.length ≤ u.length
        · exact hfurther hle hm
        · refine ⟨[], d :: u, first.1, first.2, rfl, hfirst, ?_, .inr ?_⟩
          · simp [hm, Mark.value?]
          · rw [List.length_append, List.length_cons] at hle
            omega

theorem exists_read_of_mem_occurrences (h : value ∈ occurrences read t) :
    ∃ u c v rest, t = u ++ c :: v ∧ read u.getLast? (c :: v) = some (value, rest) := by
  obtain ⟨u, c, v, rest, ht, hread⟩ := exists_read_of_mem_marksFrom h
  exact ⟨u, c, v, rest, ht, by rwa [Option.or_none] at hread⟩

/-- The form itself is found, or one that starts before it and reaches beyond its start. -/
theorem exists_found_of_read (hread : read u.getLast? (c :: v) = some r) :
    ∃ u₁ u₂ value rest, u = u₁ ++ u₂ ∧
      read u₁.getLast? (u₂ ++ c :: v) = some (value, rest) ∧
      value ∈ occurrences read (u ++ c :: v) ∧ (u₂ = [] ∨ rest.length ≤ v.length) := by
  rw [← Option.or_none (o := u.getLast?)] at hread
  obtain ⟨u₁, u₂, value, rest, hu, hfound, hmem, hend⟩ :=
    exists_found_marksFrom hread (Nat.zero_le _)
  exact ⟨u₁, u₂, value, rest, hu, by rwa [Option.or_none] at hfound, hmem, hend⟩

theorem occurrences_eq_nil_iff :
    occurrences read t = [] ↔
      ∀ u c v, t = u ++ c :: v → read u.getLast? (c :: v) = none := by
  constructor
  · rintro hnil u c v rfl
    rw [Option.eq_none_iff_forall_ne_some]
    intro r hread
    obtain ⟨-, -, value, -, -, -, hmem, -⟩ := exists_found_of_read hread
    rw [hnil] at hmem
    exact absurd hmem List.not_mem_nil
  · intro hnone
    rw [List.eq_nil_iff_forall_not_mem]
    intro value hvalue
    obtain ⟨u, c, v, rest, rfl, hread⟩ := exists_read_of_mem_occurrences hvalue
    rw [hnone u c v rfl] at hread
    cases hread

/-! ## Forms that start in a part -/

/-- The values of the forms that start in `w` if it is scanned with `t` after it. -/
def startingIn (read : Reader α) (w t : Text) : List α :=
  ((marks read (w ++ t)).take w.length).filterMap Mark.value?

theorem Finds.startingIn {values : List α} (h : Finds read none w t values) :
    startingIn read w t = values := by
  obtain ⟨ms, hl, hms, hm⟩ := h
  rw [Text.startingIn, marks, hm, ← hl, List.take_left, hms]

theorem finds_nil_of_take
    (h : ((marksFrom read 0 before (w ++ t)).take w.length).filterMap Mark.value? = []) :
    Finds read before w t [] := by
  induction w generalizing before with
  | nil => exact .nil
  | cons c w ih =>
    rw [List.cons_append] at h
    cases hread : read before (c :: (w ++ t)) with
    | some first => simp [marksFrom, hread, Mark.value?] at h
    | none =>
      have hfree : marksFrom read 0 before (c :: (w ++ t)) =
          .free c :: marksFrom read 0 (some c) (w ++ t) := by simp [marksFrom, hread]
      have hfirst : Finds read before [c] (w ++ t) [] := ⟨[.free c], rfl, rfl, hfree⟩
      apply hfirst.append (ih _)
      rw [hfree] at h
      exact h

/-- A scan in which no form starts goes on after the part as if nothing were in front of it. -/
theorem finds_of_startingIn (h : startingIn read w t = []) : Finds read none w t [] :=
  finds_nil_of_take h

/-- If no form that can be read in `w` reaches beyond it, then the scan goes on after `w`. -/
theorem exists_marksFrom_append
    (h : ∀ u c v r, w = u ++ c :: v → read (u.getLast?.or before) (c :: (v ++ t)) = some r →
      t.length ≤ r.2.length) (hskip : skip ≤ w.length) :
    ∃ ms : List (Mark α), ms.length = w.length ∧
      marksFrom read skip before (w ++ t) = ms ++ marksFrom read 0 (w.getLast?.or before) t := by
  induction w generalizing skip before with
  | nil =>
    obtain rfl : skip = 0 := by simpa using hskip
    exact ⟨[], rfl, rfl⟩
  | cons d w ih =>
    have hfurther {skip' : Nat} (hle : skip' ≤ w.length) {m : Mark α}
        (hm : marksFrom read skip before (d :: (w ++ t)) =
          m :: marksFrom read skip' (some d) (w ++ t)) :
        ∃ ms : List (Mark α), ms.length = (d :: w).length ∧
          marksFrom read skip before (d :: w ++ t) =
            ms ++ marksFrom read 0 ((d :: w).getLast?.or before) t := by
      have hends : ∀ u c v r, w = u ++ c :: v →
          read (u.getLast?.or (some d)) (c :: (v ++ t)) = some r → t.length ≤ r.2.length := by
        rintro u c v r rfl hread
        apply h (d :: u) c v r rfl
        rwa [getLast?_cons_or]
      obtain ⟨ms, hl, hms⟩ := ih hends hle
      refine ⟨m :: ms, by simp [hl], ?_⟩
      rw [List.cons_append, hm, hms, getLast?_cons_or, List.cons_append]
    cases skip with
    | succ skip => exact hfurther (by simpa using hskip) rfl
    | zero =>
      cases hfirst : read before (d :: (w ++ t)) with
      | none => exact hfurther (Nat.zero_le _) (m := .free d) (by simp [marksFrom, hfirst])
      | some first =>
        have hend : t.length ≤ first.2.length := h [] d w first rfl hfirst
        have hle : (w ++ t).length - first.2.length ≤ w.length := by
          rw [List.length_append]
          omega
        exact hfurther hle (m := .start first.1) (by simp [marksFrom, hfirst])

theorem exists_finds
    (h : ∀ u c v r, w = u ++ c :: v → read (u.getLast?.or before) (c :: (v ++ t)) = some r →
      t.length ≤ r.2.length) : ∃ values, Finds read before w t values := by
  obtain ⟨ms, hl, hms⟩ := exists_marksFrom_append h (Nat.zero_le _)
  exact ⟨_, ms, hl, rfl, hms⟩

/-- What stands before a text matters to the form at its start alone. -/
theorem marksFrom_congr {before' : Option CodePoint} (h : read before t = read before' t) :
    marksFrom read 0 before t = marksFrom read 0 before' t := by
  cases t with
  | nil => rfl
  | cons c t => simp only [marksFrom, h]

theorem Finds.marks_append {values : List α} (h : Finds read none w t values)
    (hborder : read w.getLast? t = read none t) :
    ∃ ms : List (Mark α), ms.length = w.length ∧ ms.filterMap Mark.value? = values ∧
      marks read (w ++ t) = ms ++ marks read t := by
  obtain ⟨ms, hl, hms, hm⟩ := h
  rw [Option.or_none] at hm
  exact ⟨ms, hl, hms, by rw [marks, hm, marksFrom_congr hborder, marks]⟩

theorem Finds.occurrences_append {values : List α} (h : Finds read none w t values)
    (hborder : read w.getLast? t = read none t) :
    Text.occurrences read (w ++ t) = values ++ Text.occurrences read t := by
  obtain ⟨ms, -, hms, hm⟩ := h.marks_append hborder
  rw [Text.occurrences, hm, List.filterMap_append, hms, Text.occurrences]

/-- The first form starts in the part, or it is the first one after it. -/
theorem head?_occurrences_append (hborder : read w.getLast? t = read none t) :
    (Text.occurrences read (w ++ t)).head? =
      (Text.startingIn read w t).head?.or (Text.occurrences read t).head? := by
  cases hw : Text.startingIn read w t with
  | nil => rw [(finds_of_startingIn hw).occurrences_append hborder]; rfl
  | cons value values =>
    rw [Text.occurrences, ← List.take_append_drop w.length (marks read (w ++ t)),
      List.filterMap_append, ← Text.startingIn, hw]
    rfl

end BuildChain.Text
