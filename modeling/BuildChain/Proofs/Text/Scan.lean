import BuildChain.Text.Scan

/-! # Scanning part by part

A scan of a text can be followed along its parts, each with what stands around it. A part in which
no form can start is passed over, and a form that is read counts as a part.
-/

namespace BuildChain.Text

variable {α : Type} {read : Reader α} {before : Option CodePoint} {c : CodePoint}
  {v w t form : Text}

theorem getLast?_cons_or : (c :: w).getLast?.or before = w.getLast?.or (some c) := by
  rw [List.getLast?_cons]
  cases w.getLast? <;> rfl

/-- A reader that does not look back finds the same after any character. -/
theorem marksFrom_const {read? : Text → Option (α × Text)} {skip : Nat}
    {before' : Option CodePoint} :
    marksFrom (fun _ => read?) skip before t = marksFrom (fun _ => read?) skip before' t := by
  cases t <;> cases skip <;> rfl

/-- No form starts in `w`, whatever stands around it. -/
def Quiet (read : Reader α) (w : Text) : Prop :=
  ∀ v, v <:+ w → v ≠ [] → ∀ before t, read before (v ++ t) = none

theorem Quiet.nil : Quiet read [] := by
  intro v hv hne
  exact absurd (List.suffix_nil.mp hv) hne

theorem Quiet.cons (h : ∀ before t, read before (c :: w ++ t) = none) (hw : Quiet read w) :
    Quiet read (c :: w) := by
  intro v hv hne
  rcases List.suffix_cons_iff.mp hv with rfl | hv
  · exact h
  · exact hw v hv hne

theorem Quiet.of_suffix (hw : Quiet read w) (h : v <:+ w) : Quiet read v :=
  fun u hu => hw u (hu.trans h)

theorem Quiet.append (hv : Quiet read v) (hw : Quiet read w) : Quiet read (v ++ w) := by
  induction v with
  | nil => exact hw
  | cons c v ih =>
    refine .cons (fun before t => ?_) (ih (hv.of_suffix (List.suffix_cons c v)))
    have := hv (c :: v) List.suffix_rfl (by simp) before (w ++ t)
    simpa using this

theorem Quiet.flatMap {β : Type} {parts : List β} {text : β → Text}
    (h : ∀ p ∈ parts, Quiet read (text p)) : Quiet read (parts.flatMap text) := by
  induction parts with
  | nil => exact .nil
  | cons p parts ih =>
    rw [List.forall_mem_cons] at h
    exact h.1.append (ih h.2)

theorem marksFrom_of_quiet (h : Quiet read w) (before : Option CodePoint) (t : Text) :
    marksFrom read 0 before (w ++ t) =
      w.map .free ++ marksFrom read 0 (w.getLast?.or before) t := by
  induction w generalizing before with
  | nil => simp
  | cons c w ih =>
    have hnone := h (c :: w) List.suffix_rfl (by simp) before t
    simp only [List.cons_append] at hnone
    simp [marksFrom, hnone, getLast?_cons_or, ih (h.of_suffix (List.suffix_cons c w))]

/-- A scan finds the values in `w`, which has `before` in front of it and `t` after it, and goes
on after `w`. -/
def Finds (read : Reader α) (before : Option CodePoint) (w t : Text) (values : List α) : Prop :=
  ∃ ms : List (Mark α), ms.length = w.length ∧ ms.filterMap Mark.value? = values ∧
    marksFrom read 0 before (w ++ t) = ms ++ marksFrom read 0 (w.getLast?.or before) t

theorem Finds.nil : Finds read before [] t [] :=
  ⟨[], rfl, rfl, rfl⟩

theorem Quiet.finds (h : Quiet read w) : Finds read before w t [] := by
  refine ⟨w.map .free, by simp, ?_, marksFrom_of_quiet h before t⟩
  simp [Mark.value?]

theorem Finds.of_read {value : α} (h : read before (c :: form ++ t) = some (value, t)) :
    Finds read before (c :: form) t [value] := by
  refine ⟨.start value :: List.replicate form.length .inside, by simp, ?_, ?_⟩
  · simp [Mark.value?, List.filterMap_replicate]
  · rw [marksFrom_of_read h, getLast?_cons_or, List.cons_append]

theorem Finds.append {us vs : List α} (hv : Finds read before v (w ++ t) vs)
    (hw : Finds read (v.getLast?.or before) w t us) :
    Finds read before (v ++ w) t (vs ++ us) := by
  obtain ⟨ms, hl, hms, hm⟩ := hv
  obtain ⟨ns, hl', hns, hn⟩ := hw
  refine ⟨ms ++ ns, by simp [hl, hl'], by simp [hms, hns], ?_⟩
  rw [List.append_assoc, hm, hn, List.getLast?_append, Option.or_assoc, List.append_assoc]

theorem Finds.occurrences {values : List α} (h : Finds read none w [] values) :
    occurrences read w = values := by
  obtain ⟨ms, -, hms, hm⟩ := h
  rw [List.append_nil] at hm
  rw [Text.occurrences, marks, hm]
  simpa [marksFrom] using hms

end BuildChain.Text
