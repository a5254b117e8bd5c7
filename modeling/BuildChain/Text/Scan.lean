import BuildChain.Text.Basic

/-! # Scanning

A scan tries to read a form at each position of a text, from left to right. A form that is read
is passed over as a whole, so no two of the forms found overlap. The result keeps one mark for
each character, so two scans of one text can be compared position by position.
-/

namespace BuildChain.Text

/-- What a scan says of one character. -/
inductive Mark (α : Type) where
  /-- A form with this value starts here. -/
  | start (value : α)
  /-- The character belongs to a form that started before it. -/
  | inside
  /-- No form holds the character. -/
  | free (c : CodePoint)
  deriving DecidableEq, Repr

/-- A reader of one form: given the character before the text, if there is one, and the text, it
returns the value of the form and what follows it. -/
abbrev Reader (α : Type) := Option CodePoint → Text → Option (α × Text)

/-- Marks the characters after `before`, of which the first `skip` belong to a form already
read. -/
def marksFrom (read : Reader α) : (skip : Nat) → (before : Option CodePoint) → Text → List (Mark α)
  | _, _, [] => []
  | skip + 1, _, c :: t => .inside :: marksFrom read skip (some c) t
  | 0, before, c :: t =>
    match read before (c :: t) with
    | some (value, rest) => .start value :: marksFrom read (t.length - rest.length) (some c) t
    | none => .free c :: marksFrom read 0 (some c) t

def marks (read : Reader α) (t : Text) : List (Mark α) :=
  marksFrom read 0 none t

def Mark.value? : Mark α → Option α
  | start value => some value
  | _ => none

/-- The values of the forms found, in order. -/
def occurrences (read : Reader α) (t : Text) : List α :=
  (marks read t).filterMap Mark.value?

theorem length_marksFrom (read : Reader α) (skip : Nat) (before : Option CodePoint) (t : Text) :
    (marksFrom read skip before t).length = t.length := by
  fun_induction marksFrom read skip before t <;> simp_all

/-- Characters that belong to a form already read are passed over. -/
theorem marksFrom_append (read : Reader α) (form t : Text) (before : Option CodePoint) :
    marksFrom read form.length before (form ++ t) =
      List.replicate form.length .inside ++ marksFrom read 0 (form.getLast?.or before) t := by
  induction form generalizing before with
  | nil => simp
  | cons c form ih =>
    have h : (c :: form).getLast?.or before = form.getLast?.or (some c) := by
      rw [List.getLast?_cons]; cases form.getLast? <;> rfl
    simp [marksFrom, ih, h, List.replicate_succ]

/-- A form that can be read is marked as a whole, and the scan goes on after it. -/
theorem marksFrom_of_read {read : Reader α} {before : Option CodePoint} {c : CodePoint}
    {form t : Text}
    {value : α} (h : read before (c :: form ++ t) = some (value, t)) :
    marksFrom read 0 before (c :: form ++ t) =
      .start value :: (List.replicate form.length .inside ++
        marksFrom read 0 (form.getLast?.or (some c)) t) := by
  rw [List.cons_append] at h ⊢
  simp only [marksFrom, h]
  rw [← marksFrom_append]
  simp

end BuildChain.Text
