import BuildChain.Proofs.Script.Literal

/-! # Sections of a script

A script is one section after the other, without a mark of where one ends. The lines of a section
tell what it is about, whatever lines follow, and its first character tells of which kind it is.
So sections of one kind in front of other lines are told apart, however many there are.
-/

namespace BuildChain.Script

variable {α : Type} {c d : CodePoint} {write : α → List Text} {as bs : List α}
  {t head function body : Text} {ts lines ls ms : List Text}

/-! ## Lines -/

/-- None of the lines holds a newline, so a text of them has as many lines. -/
def Unbroken (lines : List Text) : Prop :=
  ∀ line ∈ lines, .char '\n' ∉ line

instance (lines : List Text) : Decidable (Unbroken lines) :=
  inferInstanceAs (Decidable (∀ line ∈ lines, .char '\n' ∉ line))

@[simp] theorem unbroken_nil : Unbroken [] := by
  simp [Unbroken]

@[simp] theorem unbroken_cons : Unbroken (t :: lines) ↔ .char '\n' ∉ t ∧ Unbroken lines :=
  List.forall_mem_cons

@[simp] theorem unbroken_append : Unbroken (ls ++ ms) ↔ Unbroken ls ∧ Unbroken ms :=
  List.forall_mem_append

theorem unbroken_flatMap : Unbroken (as.flatMap write) ↔ ∀ a ∈ as, Unbroken (write a) := by
  unfold Unbroken
  constructor
  · intro h a ha line hline
    exact h line (List.mem_flatMap.mpr ⟨a, ha, hline⟩)
  · intro h line hline
    obtain ⟨a, ha, hline⟩ := List.mem_flatMap.mp hline
    exact h a ha line hline

@[simp] theorem newline_mem_call :
    .char '\n' ∈ call function t ↔ .char '\n' ∈ function ∨ .char '\n' ∈ t := by
  simp [call, literal]

@[simp] theorem newline_mem_oneLine :
    .char '\n' ∈ oneLine head body ↔ .char '\n' ∈ head ∨ .char '\n' ∈ body := by
  simp [oneLine, opening]

@[simp] theorem newline_mem_indent : .char '\n' ∈ indent t ↔ .char '\n' ∈ t :=
  List.mem_append.trans (or_iff_right (by decide))

theorem newline_notMem_listOf (h : Unbroken ts) : .char '\n' ∉ listOf ts := by
  cases ts with
  | nil => decide
  | cons t ts =>
    obtain ⟨ht, h⟩ := unbroken_cons.mp h
    rw [listOf_cons]
    simp only [List.mem_append, List.mem_flatMap, not_or, not_exists, not_and]
    refine ⟨⟨⟨by decide, ?_⟩, fun u hu => ⟨by decide, ?_⟩⟩, by decide⟩
    · simpa [literal] using ht
    · simpa [literal] using h u hu

@[simp] theorem unbroken_block : Unbroken (block head ls) ↔ .char '\n' ∉ head ∧ Unbroken ls := by
  have hindent : Unbroken (ls.map indent) ↔ Unbroken ls := by simp [Unbroken]
  simp [block, opening, closing, hindent]

/-- The lines of a text are found again. -/
theorem split_ofLines (hne : ls ≠ []) (h : Unbroken ls) :
    Text.split (· == '\n') (Text.ofLines ls) = ls :=
  Text.split_join hne h

theorem ofLines_inj (hls : ls ≠ []) (hms : ms ≠ []) (hl : Unbroken ls) (hm : Unbroken ms) :
    Text.ofLines ls = Text.ofLines ms ↔ ls = ms := by
  constructor
  · intro h
    have hsplit := congrArg (Text.split (· == '\n')) h
    rwa [split_ofLines hls hl, split_ofLines hms hm] at hsplit
  · rintro rfl
    rfl

/-! ## Sections -/

variable {t u : List Text}

/-- The character that the first line begins with. -/
def first? (lines : List Text) : Option CodePoint :=
  lines.head?.bind List.head?

/-- The items are written as sections that begin with a common character. -/
structure Sections (c : CodePoint) (write : α → List Text) : Prop where
  first : ∀ a t, first? (write a ++ t) = some c
  tells : ∀ {a b t u}, write a ++ t = write b ++ u → a = b ∧ t = u

namespace Sections

theorem append_inj (h : Sections c write) {a b : α} :
    write a ++ t = write b ++ u ↔ a = b ∧ t = u := by
  constructor
  · exact h.tells
  · rintro ⟨rfl, rfl⟩
    rfl

/-- Sections of one kind are told from what follows, if that does not begin as they do. -/
theorem flatMap_append_inj (h : Sections c write) (ht : first? t ≠ some c)
    (hu : first? u ≠ some c) :
    as.flatMap write ++ t = bs.flatMap write ++ u ↔ as = bs ∧ t = u := by
  constructor
  · intro heq
    induction as generalizing bs with
    | nil =>
      cases bs with
      | nil => exact ⟨rfl, heq⟩
      | cons b bs =>
        rw [List.flatMap_cons, List.append_assoc] at heq
        exact absurd ((congrArg first? heq).trans (h.first b _)) ht
    | cons a as ih =>
      rw [List.flatMap_cons, List.append_assoc] at heq
      cases bs with
      | nil => exact absurd ((congrArg first? heq).symm.trans (h.first a _)) hu
      | cons b bs =>
        rw [List.flatMap_cons, List.append_assoc] at heq
        obtain ⟨rfl, hrest⟩ := h.tells heq
        obtain ⟨rfl, rfl⟩ := ih hrest
        exact ⟨rfl, rfl⟩
  · rintro ⟨rfl, rfl⟩
    rfl

theorem first?_flatMap_append (h : Sections c write) (hne : c ≠ d) (ht : first? t ≠ some d) :
    first? (as.flatMap write ++ t) ≠ some d := by
  cases as with
  | nil => exact ht
  | cons a as =>
    rw [List.flatMap_cons, List.append_assoc, h.first]
    simpa using hne

end Sections

theorem sections_indent : Sections ' ' fun line => [indent line] where
  first _ _ := rfl
  tells h := by simpa [indent] using h

/-- The body of a block is told from the lines after the block. -/
theorem block_append_inj {head : Text} {body body' : List Text} :
    block head body ++ t = block head body' ++ u ↔ body = body' ∧ t = u := by
  have hblock : ∀ (body t : List Text), block head body ++ t =
      opening head :: (body.flatMap (fun line => [indent line]) ++ closing :: t) := by
    intro body t
    rw [← List.map_eq_flatMap]
    simp [block]
  have hclosing : ∀ t, first? (closing :: t) ≠ some ' ' := by
    intro t h
    have hchar : CodePoint.char '\x7d' = ' ' := Option.some.inj h
    exact absurd hchar (by decide)
  rw [hblock, hblock, List.cons_inj_right,
    sections_indent.flatMap_append_inj (hclosing _) (hclosing _), List.cons_inj_right]

end BuildChain.Script
