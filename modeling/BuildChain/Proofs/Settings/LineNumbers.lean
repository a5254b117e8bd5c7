import BuildChain.Proofs.Settings.CommentFree

/-! # Lines of a script without comments

A script is made up of parts, which are its tokens and the single characters between them. Taking
out the comments leaves the line breaks of each comment in its place and every other part as it
is, so whatever is not in a comment stays on its line.
-/

namespace BuildChain.Settings

open Text

variable {c : CodePoint} {form t u v : Text} {line : Nat}

/-! ## Parts -/

/-- A token of a script, or a character that belongs to none. -/
inductive Part
  | token (token : Token)
  | free (c : CodePoint)
  deriving DecidableEq, Repr

namespace Part

/-- The part that starts at a mark. -/
def ofMark? : Mark Token → Option Part
  | .start t => some (token t)
  | .inside => none
  | .free c => some (free c)

def text : Part → Text
  | token t => t.text
  | free c => [c]

def isComment : Part → Bool
  | token (.comment _) => true
  | _ => false

/-- What is left of a part without the comments. -/
def stripped : Part → Text
  | token t => t.stripped
  | free c => [c]

theorem stripped_of_not_comment (part : Part) (h : part.isComment = false) :
    part.stripped = part.text := by
  match part with
  | free c => rfl
  | token (.literal t) => rfl
  | token (.comment t) => cases h

theorem eq_newline_of_mem_stripped (part : Part) (h : part.isComment = true)
    (hc : c ∈ part.stripped) : c = '\n' := by
  match part with
  | token (.comment t) => simpa using (List.mem_filter.mp hc).2
  | token (.literal t) => cases h
  | free c => cases h

/-- No part loses a line break. -/
theorem count_stripped (part : Part) :
    part.stripped.count (.char '\n') = part.text.count (.char '\n') := by
  match part with
  | free c => rfl
  | token (.literal t) => rfl
  | token (.comment t) => exact List.count_filter (by simp)

end Part

/-- The parts of a script, in order. -/
def parts (script : Text) : List Part :=
  (tokenMarks script).filterMap Part.ofMark?

theorem parts_cons (h : Token.read? (c :: t) = none) : parts (c :: t) = .free c :: parts t := by
  rw [parts, tokenMarks_cons h]
  rfl

theorem parts_of_read {token : Token} (h : Token.read? (c :: form ++ t) = some (token, t)) :
    parts (c :: form ++ t) = .token token :: parts t := by
  have hinside : (List.replicate form.length Mark.inside).filterMap Part.ofMark? = [] := by
    simp [Part.ofMark?, List.filterMap_replicate]
  rw [parts, tokenMarks_of_read h, List.filterMap_cons, List.filterMap_append, hinside]
  rfl

/-- The parts are all there is of a script. -/
theorem flatMap_text_parts (script : Text) : (parts script).flatMap Part.text = script := by
  induction script using token_induction with
  | nil => rfl
  | free c t hread ih => rw [parts_cons hread, List.flatMap_cons, ih t le_rfl]; rfl
  | literal quote form t hform ih =>
    rw [parts_of_read (read?_literal hform t), List.flatMap_cons, ih t le_rfl]
    rfl
  | comment form t hread ih =>
    rw [parts_of_read hread, List.flatMap_cons, ih t le_rfl]
    rfl

theorem flatMap_stripped_parts (script : Text) :
    (parts script).flatMap Part.stripped = stripComments script := by
  rw [parts, stripComments]
  induction tokenMarks script with
  | nil => rfl
  | cons mark marks ih =>
    rw [List.flatMap_cons, ← ih]
    cases mark <;> rfl

/-! ## Lines -/

/-- The characters of a text, each with the number of its line, if the text starts on `line`. -/
def numberedFrom (line : Nat) : Text → List (Nat × CodePoint)
  | [] => []
  | c :: t => (line, c) :: numberedFrom (if c = '\n' then line + 1 else line) t

/-- The characters outside of comments, each with the number of its line. -/
def codeFrom (line : Nat) : List Part → List (Nat × CodePoint)
  | [] => []
  | part :: parts =>
    (if part.isComment then [] else numberedFrom line part.text) ++
      codeFrom (line + part.text.count (.char '\n')) parts

theorem numberedFrom_append (line : Nat) (u v : Text) :
    numberedFrom line (u ++ v) =
      numberedFrom line u ++ numberedFrom (line + u.count (.char '\n')) v := by
  induction u generalizing line with
  | nil => rfl
  | cons c u ih =>
    rw [List.cons_append, numberedFrom, ih, numberedFrom, List.count_cons]
    by_cases hc : c = '\n'
    · simp [hc, Nat.add_comm 1, Nat.add_assoc]
    · simp [hc]

theorem map_snd_numberedFrom (line : Nat) (t : Text) :
    (numberedFrom line t).map Prod.snd = t := by
  induction t generalizing line with
  | nil => rfl
  | cons c t ih => rw [numberedFrom, List.map_cons, ih]

theorem count_flatMap_stripped (parts : List Part) :
    (parts.flatMap Part.stripped).count (.char '\n') =
      (parts.flatMap Part.text).count (.char '\n') := by
  induction parts with
  | nil => rfl
  | cons part parts ih =>
    rw [List.flatMap_cons, List.flatMap_cons, List.count_append, List.count_append,
      part.count_stripped, ih]

/-- What is outside of comments is there in its order and on its lines, if at least the line breaks
of comments are. -/
theorem sublist_numberedFrom {f : Part → Text}
    (hcount : ∀ part, (f part).count (.char '\n') = part.text.count (.char '\n'))
    (hcode : ∀ part, part.isComment = false → f part = part.text) (parts : List Part) (line : Nat) :
    (codeFrom line parts).Sublist (numberedFrom line (parts.flatMap f)) := by
  induction parts generalizing line with
  | nil => exact List.Sublist.refl _
  | cons part parts ih =>
    rw [List.flatMap_cons, numberedFrom_append, hcount, codeFrom]
    apply List.Sublist.append _ (ih _)
    cases hcomment : part.isComment with
    | true => exact List.nil_sublist _
    | false =>
      rw [hcode part hcomment]
      exact List.Sublist.refl _

theorem filter_numberedFrom_of_newlines (h : ∀ c ∈ t, c = '\n') :
    (numberedFrom line t).filter (·.2 ≠ .char '\n') = [] := by
  rw [List.filter_eq_nil_iff]
  intro entry hentry
  have hmem : entry.2 ∈ t := by
    rw [← map_snd_numberedFrom line t]
    exact List.mem_map_of_mem hentry
  simp [h _ hmem]

/-- Nothing else is left but line breaks. -/
theorem filter_numberedFrom (parts : List Part) (line : Nat) :
    (numberedFrom line (parts.flatMap Part.stripped)).filter (·.2 ≠ .char '\n') =
      (codeFrom line parts).filter (·.2 ≠ .char '\n') := by
  induction parts generalizing line with
  | nil => rfl
  | cons part parts ih =>
    rw [List.flatMap_cons, numberedFrom_append, part.count_stripped, codeFrom,
      List.filter_append, List.filter_append, ih]
    congr 1
    cases hcomment : part.isComment with
    | true =>
      exact filter_numberedFrom_of_newlines fun c hc => part.eq_newline_of_mem_stripped hcomment hc
    | false =>
      rw [part.stripped_of_not_comment hcomment]
      rfl

/-- Without the comments a script has as many lines as before. What is outside of comments is
there in the same order, each character on the line that it was on, and all else is line breaks.
Each literal and every other part that is no comment is left in one piece. -/
theorem stripComments_numbered (script : Text) :
    let code := codeFrom 0 (parts script)
    let left := numberedFrom 0 (stripComments script)
    (parts script).flatMap Part.text = script ∧
    (stripComments script).count (.char '\n') = script.count (.char '\n') ∧
    code.Sublist (numberedFrom 0 script) ∧
    code.Sublist left ∧
    left.filter (·.2 ≠ .char '\n') = code.filter (·.2 ≠ .char '\n') ∧
    ∀ front part back, parts script = front ++ part :: back → part.isComment = false →
      ∃ before after, stripComments script = before ++ part.text ++ after ∧
        before.count (.char '\n') = (front.flatMap Part.text).count (.char '\n') ∧
        after.count (.char '\n') = (back.flatMap Part.text).count (.char '\n') := by
  intro code left
  have htext := flatMap_text_parts script
  have hstripped := flatMap_stripped_parts script
  refine ⟨htext, ?_, ?_, ?_, ?_, ?_⟩
  · rw [← hstripped, count_flatMap_stripped, htext]
  · have hcode := sublist_numberedFrom (fun _ => rfl) (fun _ _ => rfl) (parts script) 0
    rwa [htext] at hcode
  · have hcode := sublist_numberedFrom Part.count_stripped
      (fun part hpart => part.stripped_of_not_comment hpart) (parts script) 0
    rwa [hstripped] at hcode
  · have hleft := filter_numberedFrom (parts script) 0
    rwa [hstripped] at hleft
  · rintro front part back hsplit hcomment
    refine ⟨front.flatMap Part.stripped, back.flatMap Part.stripped, ?_,
      count_flatMap_stripped front, count_flatMap_stripped back⟩
    rw [← hstripped, hsplit, List.flatMap_append, List.flatMap_cons,
      part.stripped_of_not_comment hcomment, List.append_assoc]

/-- The marker of a comment in a literal stays, and the code after a comment stays on its line. -/
example :
    stripComments ("a /* 1\n\"2 */ \"//\" // 3\nb" : Text) = ("a \n \"//\" \nb" : Text) ∧
    (2, .char 'b') ∈ codeFrom 0 (parts ("a /* 1\n\"2 */ \"//\" // 3\nb" : Text)) := by
  decide +kernel

end BuildChain.Settings
