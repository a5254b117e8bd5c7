import BuildChain.Text.Blank
import BuildChain.Text.Scan
import BuildChain.Text.WordChar

/-! # Include statements

A script includes projects by a call, as in `include("a", "b")`, or by a command, as in
`include 'a', 'b'`. The two forms are looked for independently of each other, and the statements
count in the order in which they start.
-/

namespace BuildChain.Settings

open Text

def isQuote (c : CodePoint) : Bool :=
  c == '"' || c == '\''

/-- Reads the argument between two quotes of one kind. -/
def argument : Reader Text
  | _, c :: t =>
    if isQuote c then do
      let rest ← after? [c] (t.dropWhile (· != c))
      return (t.takeWhile (· != c), rest)
    else none
  | _, [] => none

/-- The quoted arguments in a text. -/
def arguments (t : Text) : List Text :=
  occurrences argument t

/-- Reads a non-empty text between two quotes, which may be of different kinds. -/
def looseLiteral? : Text → Option (Text × Text)
  | c :: t =>
    if isQuote c then
      match t.takeWhile (!isQuote ·), t.dropWhile (!isQuote ·) with
      | d :: content, _ :: rest => some (d :: content, rest)
      | _, _ => none
    else none
  | [] => none

/-- Reads a comma with blanks around it. -/
def comma? (t : Text) : Option Text :=
  (after? "," (skipBlanks t)).map skipBlanks

theorem length_lt_of_looseLiteral? {t content rest : Text}
    (h : looseLiteral? t = some (content, rest)) : rest.length < t.length := by
  match t with
  | [] => simp [looseLiteral?] at h
  | c :: t =>
    have hle := (List.dropWhile_suffix (l := t) (!isQuote ·)).length_le
    simp only [looseLiteral?] at h
    split at h
    · split at h
      · next he => simp_all; omega
      · simp at h
    · simp at h

theorem length_le_of_after? {start t rest : Text} (h : after? start t = some rest) :
    rest.length ≤ t.length := by
  induction start generalizing t with
  | nil => simp_all [after?]
  | cons s start ih =>
    cases t with
    | nil => simp [after?] at h
    | cons c t =>
      simp only [after?] at h
      split at h
      · exact Nat.le_succ_of_le (ih h)
      · simp at h

theorem length_le_of_comma? {t rest : Text} (h : comma? t = some rest) :
    rest.length ≤ t.length := by
  obtain ⟨u, hu, rfl⟩ := Option.map_eq_some_iff.mp h
  have h₁ := length_le_of_after? hu
  have h₂ := (List.dropWhile_suffix (l := t) isBlank).length_le
  have h₃ := (List.dropWhile_suffix (l := u) isBlank).length_le
  exact Nat.le_trans h₃ (Nat.le_trans h₁ h₂)

/-- What follows a comma and a literal. -/
def afterNext? (t : Text) : Option Text :=
  (comma? t).bind fun u => (looseLiteral? u).map Prod.snd

theorem length_lt_of_afterNext? {t rest : Text} (h : afterNext? t = some rest) :
    rest.length < t.length := by
  obtain ⟨u, hu, h⟩ := Option.bind_eq_some_iff.mp h
  obtain ⟨⟨content, rest⟩, hl, rfl⟩ := Option.map_eq_some_iff.mp h
  exact Nat.lt_of_lt_of_le (length_lt_of_looseLiteral? hl) (length_le_of_comma? hu)

/-- What follows as many literals as there are, each after a comma. A comma without a literal is
not passed. -/
def afterLiterals (t : Text) : Text :=
  match h : afterNext? t with
  | none => t
  | some rest =>
    have : rest.length < t.length := length_lt_of_afterNext? h
    afterLiterals rest
termination_by t.length

/-- Reads `include(…)` up to the first closing parenthesis: its arguments. -/
def includeCall : Reader (List Text)
  | before, t => do
    guard (atWordStart before)
    let t ← after? "include" t
    let inner ← after? "(" (skipBlanks t)
    let rest ← after? ")" (inner.dropWhile (· != ')'))
    return (arguments (inner.takeWhile (· != ')')), rest)

/-- Reads `include` with blanks and literals after it: its arguments. -/
def includeCommand : Reader (List Text)
  | before, t => do
    guard (atWordStart before)
    let t ← after? "include" t
    guard (t.head?.any isBlank)
    let list := skipBlanks t
    let (_, rest) ← looseLiteral? list
    let rest := afterLiterals rest
    return (arguments (list.take (list.length - rest.length)), rest)

/-- The arguments of the statements that start at one character. -/
def argumentsAt (call command : Mark (List Text)) : List Text :=
  call.value?.getD [] ++ command.value?.getD []

/-- The included project paths as written, in order. -/
def includes (script : Text) : List Text :=
  (List.zipWith argumentsAt (marks includeCall script) (marks includeCommand script)).flatten

end BuildChain.Settings
