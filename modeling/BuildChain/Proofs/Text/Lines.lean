import BuildChain.Proofs.Text.Blank

/-! # Laws of lines

A text that was put together from lines is cut into the same lines, whatever line ending was used.
An empty line at the end is lost if no line ending follows it.
-/

namespace BuildChain.Text

variable {c : CodePoint} {t w : Text} {ls rest : List Text}

/-- The character is no line ending, nor part of one. -/
abbrev IsInLine (c : CodePoint) : Prop :=
  isLineBreak c = false

theorem isInLine_of_any (h : t.any isLineBreak = false) : ∀ c ∈ t, IsInLine c := by
  simpa using h

theorem isInLine_of_not_blank (h : isBlank c = false) : IsInLine c := by
  simp only [IsInLine, isLineBreak, isBlank, inRanges, blankRanges, List.any_cons, List.any_nil,
    Bool.or_false, Bool.or_eq_false_iff, Bool.and_eq_false_iff, decide_eq_false_iff_not] at h ⊢
  omega

theorem IsInLine.ne_newline (h : IsInLine c) : c ≠ '\n' := by
  rintro rfl
  exact absurd h (by decide)

theorem IsInLine.ne_return (h : IsInLine c) : c ≠ '\r' := by
  rintro rfl
  exact absurd h (by decide)

/-- Puts a character in front of the first line. -/
def extendFirst (c : CodePoint) : List Text → List Text
  | [] => [[c]]
  | l :: ls => (c :: l) :: ls

/-- A return and a newline after it would be one line ending. -/
theorem lines_cons (h : c = '\r' → t.head? ≠ some '\n') :
    lines (c :: t) = if isLineBreak c then [] :: lines t else extendFirst c (lines t) := by
  rw [lines]
  · cases lines t <;> rfl
  · rintro u hc rfl
    exact h hc rfl

theorem lines_newline : lines ('\n' :: t) = [] :: lines t :=
  lines_cons (by simp)

theorem lines_return (h : t.head? ≠ some '\n') : lines ('\r' :: t) = [] :: lines t :=
  lines_cons fun _ => h

theorem lines_cons_of_isInLine (h : IsInLine c) : lines (c :: t) = extendFirst c (lines t) := by
  rw [lines_cons fun hc => absurd hc h.ne_return, h]
  rfl

/-- A line ends where a line break begins. -/
theorem lines_append (hw : ∀ c ∈ w, IsInLine c) (ht : lines t = [] :: rest) :
    lines (w ++ t) = w :: rest := by
  induction w with
  | nil => exact ht
  | cons c w ih =>
    obtain ⟨hc, hw⟩ := List.forall_mem_cons.mp hw
    rw [List.cons_append, lines_cons_of_isInLine hc, ih hw, extendFirst]

theorem lines_of_isInLine (hne : w ≠ []) (hw : ∀ c ∈ w, IsInLine c) : lines w = [w] := by
  induction w with
  | nil => exact absurd rfl hne
  | cons c w ih =>
    obtain ⟨hc, hw⟩ := List.forall_mem_cons.mp hw
    rw [lines_cons_of_isInLine hc]
    cases w with
    | nil => rfl
    | cons d w => rw [ih (by simp) hw, extendFirst]

/-- No line ending is left in a line that a text is cut into. -/
theorem isInLine_of_mem_lines {l : Text} (hl : l ∈ lines t) : ∀ c ∈ l, IsInLine c := by
  fun_induction lines t generalizing l with
  | case1 => simp at hl
  | case2 t ih =>
    rcases List.mem_cons.mp hl with rfl | hl
    · simp
    · exact ih hl
  | case3 c t hr hc ih =>
    rcases List.mem_cons.mp hl with rfl | hl
    · simp
    · exact ih hl
  | case4 c t hr hc hlines ih =>
    obtain rfl := List.mem_singleton.mp hl
    simpa [IsInLine] using hc
  | case5 c t hr hc first rest hlines ih =>
    rw [hlines] at ih
    rcases List.mem_cons.mp hl with rfl | hl
    · exact List.forall_mem_cons.mpr ⟨by simpa [IsInLine] using hc, ih (.head _)⟩
    · exact ih (.tail _ hl)

/-- Folding line endings leaves the lines as they are. -/
theorem lines_foldNewlines (t : Text) : lines (foldNewlines t) = lines t := by
  fun_induction foldNewlines t with
  | case1 => rfl
  | case2 t ih => rw [lines_newline, ih, lines]
  | case3 c t hc ih =>
    have hnext : c = '\r' → t.head? ≠ some '\n' := by
      intro hr h
      obtain ⟨u, rfl⟩ := List.head?_eq_some_iff.mp h
      exact hc u hr rfl
    by_cases hr : c = '\r'
    · subst hr
      rw [if_pos rfl, lines_newline, ih, lines_return (hnext rfl)]
    · rw [if_neg hr, lines_cons fun he => absurd he hr, lines_cons hnext, ih]

/-! ## Writing lines -/

/-- The ways to end a line of a file. -/
inductive LineEnding
  | newline
  | carriageReturn
  | returnNewline

namespace LineEnding

def text : LineEnding → Text
  | newline => "\n"
  | carriageReturn => "\r"
  | returnNewline => "\r\n"

/-- The text of a file with the given lines. The last line may stand without its line ending. -/
def write (ending : LineEnding) (ended : Bool) : List Text → Text
  | [] => []
  | [l] => if ended then l ++ ending.text else l
  | l :: ls => l ++ ending.text ++ write ending ended ls

end LineEnding

variable {ending : LineEnding} {ended : Bool}

theorem head?_append_ne_newline (hw : ∀ c ∈ w, IsInLine c) (ht : t.head? ≠ some '\n') :
    (w ++ t).head? ≠ some '\n' := by
  cases w with
  | nil => exact ht
  | cons c w =>
    intro h
    exact (hw c List.mem_cons_self).ne_newline (Option.some.inj h)

theorem head?_write_ne_newline (hls : ∀ l ∈ ls, ∀ c ∈ l, IsInLine c) :
    (LineEnding.carriageReturn.write ended ls).head? ≠ some '\n' := by
  fun_cases LineEnding.write .carriageReturn ended ls with
  | case1 => simp
  | case2 l =>
    apply head?_append_ne_newline (hls l (by simp))
    decide
  | case3 l =>
    have : (l ++ []).head? ≠ some (.char '\n') :=
      head?_append_ne_newline (hls l (by simp)) (by simp)
    simpa using this
  | case4 l ls =>
    rw [List.append_assoc]
    apply head?_append_ne_newline (hls l (by simp))
    simp [LineEnding.text]

theorem lines_append_ending (hw : ∀ c ∈ w, IsInLine c)
    (ht : ending = .carriageReturn → t.head? ≠ some '\n') :
    lines (w ++ ending.text ++ t) = w :: lines t := by
  rw [List.append_assoc]
  apply lines_append hw
  cases ending with
  | newline => exact lines_newline
  | carriageReturn => exact lines_return (ht rfl)
  | returnNewline => rfl

/-- The lines of a file are found again, all but an empty one that nothing ends. -/
theorem lines_write (hls : ∀ l ∈ ls, ∀ c ∈ l, IsInLine c) :
    lines (ending.write ended ls) = ls ∨ lines (ending.write ended ls) ++ [[]] = ls := by
  induction ls with
  | nil => exact Or.inl rfl
  | cons l ls ih =>
    obtain ⟨hl, hls⟩ := List.forall_mem_cons.mp hls
    cases ls with
    | nil =>
      cases ended with
      | true =>
        left
        have : lines (l ++ ending.text ++ []) = l :: lines [] := lines_append_ending hl (by simp)
        simpa [LineEnding.write, lines] using this
      | false =>
        by_cases hne : l = []
        · right
          simp [LineEnding.write, hne, lines]
        · left
          exact lines_of_isInLine hne hl
    | cons l' ls =>
      rw [LineEnding.write, lines_append_ending hl]
      · rcases ih hls with h | h
        · left
          rw [h]
        · right
          rw [List.cons_append, h]
      · rintro rfl
        exact head?_write_ne_newline hls
      · simp

end BuildChain.Text
