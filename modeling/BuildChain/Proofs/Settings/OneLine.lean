import BuildChain.Proofs.Settings.Statements

/-! # Include statements in one line

An include statement as it is usually written: the arguments in quotes of one kind, with a comma
and a space between them. A statement that begins in the middle of such a line begins inside one
of the quoted texts.
-/

namespace BuildChain.Settings

open Text

variable {before : Option CodePoint} {c : CodePoint} {quote : Quote} {a p t u v w : Text}
  {args : List Text}

/-! ## The lines -/

/-- A text that can stand between quotes. -/
structure Quotable (w : Text) : Prop where
  ne_nil : w ≠ []
  not_quote : ∀ c ∈ w, isQuote c = false

instance : DecidablePred Quotable := fun w =>
  decidable_of_iff (w ≠ [] ∧ w.any isQuote = false)
    ⟨fun h => ⟨h.1, not_quote_of_any h.2⟩, fun h => ⟨h.1, by simpa using h.2⟩⟩

def quoted (quote : Quote) (w : Text) : Text :=
  quote.char :: (w ++ [quote.char])

def listText (quote : Quote) (args : List Text) : Text :=
  join ", " (args.map (quoted quote))

/-- Arguments with a comma in front of each. -/
def furtherText (quote : Quote) (args : List Text) : Text :=
  args.flatMap fun a => (", " : Text) ++ quoted quote a

def callText (args : List Text) : Text :=
  ("include(" : Text) ++ (listText .double args ++ [CodePoint.char ')'])

def commandText (quote : Quote) (args : List Text) : Text :=
  ("include " : Text) ++ listText quote args

theorem callText_eq (args : List Text) :
    callText args = withKeyword (.char '(' :: (listText .double args ++ [CodePoint.char ')'])) :=
  call_append _

theorem commandText_eq (quote : Quote) (args : List Text) :
    commandText quote args = withKeyword (' ' :: (listText quote args ++ [])) := by
  rw [List.append_nil]
  exact command_append _

theorem quoted_append (quote : Quote) (w t : Text) :
    quoted quote w ++ t = quote.char :: (w ++ quote.char :: t) := by
  simp [quoted]

theorem furtherText_cons (quote : Quote) (a : Text) (args : List Text) :
    furtherText quote (a :: args) =
      (", " : Text) ++ (quoted quote a ++ furtherText quote args) := by
  simp [furtherText]

theorem furtherText_append (quote : Quote) (front back : List Text) :
    furtherText quote (front ++ back) = furtherText quote front ++ furtherText quote back :=
  List.flatMap_append

theorem listText_cons (quote : Quote) (a : Text) (args : List Text) :
    listText quote (a :: args) = quoted quote a ++ furtherText quote args := by
  induction args generalizing a with
  | nil => simp [listText, furtherText]
  | cons b args ih =>
    rw [furtherText_cons, ← ih]
    simp [listText, List.intercalate_cons_cons]

theorem Quote.char_ne_close (quote : Quote) : ')' ≠ quote.char := by
  cases quote <;> decide

theorem close_mem_furtherText_iff (quote : Quote) :
    .char ')' ∈ furtherText quote args ↔ ∃ a ∈ args, .char ')' ∈ a := by
  simp [furtherText, quoted, List.mem_flatMap, quote.char_ne_close]

theorem close_notMem_listText (quote : Quote) (h : ∀ a ∈ args, .char ')' ∉ a) :
    .char ')' ∉ listText quote args := by
  cases args with
  | nil => exact List.not_mem_nil
  | cons a args =>
    obtain ⟨ha, hargs⟩ := List.forall_mem_cons.mp h
    rw [listText_cons, List.mem_append, close_mem_furtherText_iff]
    simpa [quoted, quote.char_ne_close, ha] using hargs

/-! ## Reading a line -/

theorem finds_quoted (ha : Quotable a) : Finds argument before (quoted quote a) t [a] := by
  refine .of_read ?_
  rw [← quoted, quoted_append]
  exact argument_text quote.isQuote_char (quote.char_notMem ha.not_quote) before t

theorem finds_furtherText (h : ∀ a ∈ args, Quotable a) :
    Finds argument before (furtherText quote args) t args := by
  induction args generalizing before with
  | nil => exact .nil
  | cons a args ih =>
    obtain ⟨ha, hargs⟩ := List.forall_mem_cons.mp h
    have hcomma : Quiet argument (", " : Text) := quiet_argument (not_quote_of_any rfl)
    rw [furtherText_cons]
    exact hcomma.finds.append ((finds_quoted ha).append (ih hargs))

theorem arguments_listText (h : ∀ a ∈ args, Quotable a) :
    arguments (listText quote args) = args := by
  cases args with
  | nil => rfl
  | cons a args =>
    obtain ⟨ha, hargs⟩ := List.forall_mem_cons.mp h
    rw [listText_cons]
    exact ((finds_quoted ha).append (finds_furtherText hargs)).occurrences

theorem looseLiteral?_quoted_append (ha : Quotable a) (t : Text) :
    looseLiteral? (quoted quote a ++ t) = some (a, t) := by
  rw [quoted_append]
  exact looseLiteral?_text quote.isQuote_char quote.isQuote_char ha.ne_nil ha.not_quote t

theorem afterLiterals_furtherText (h : ∀ a ∈ args, Quotable a) (ht : comma? t = none) :
    afterLiterals (furtherText quote args ++ t) = t := by
  induction args with
  | nil => exact afterLiterals_of_no_comma ht
  | cons a args ih =>
    obtain ⟨ha, hargs⟩ := List.forall_mem_cons.mp h
    have hcomma (u : Text) : comma? ((", " : Text) ++ (quoted quote a ++ u)) =
        some (quoted quote a ++ u) := by
      have hquote : isBlank quote.char = false := by cases quote <;> decide
      rw [quoted_append]
      exact comma?_gap [.space] hquote _
    have hnext : afterNext? (furtherText quote (a :: args) ++ t) =
        some (furtherText quote args ++ t) := by
      rw [furtherText_cons, List.append_assoc, List.append_assoc, afterNext?, hcomma,
        Option.bind_some, looseLiteral?_quoted_append ha, Option.map_some]
    rw [afterLiterals_of_some hnext, ih hargs]

theorem includeCall_callText (hargs : ∀ a ∈ args, Quotable a) (hclose : ∀ a ∈ args, .char ')' ∉ a) :
    includeCall none (callText args) = some (args, []) := by
  have hread : includeCall none (callText args) = some (arguments (listText .double args), []) :=
    includeCall_call rfl (close_notMem_listText .double hclose)
  rwa [arguments_listText hargs] at hread

theorem includeCommand_commandText (hne : args ≠ []) (hargs : ∀ a ∈ args, Quotable a) :
    includeCommand none (commandText quote args) = some (args, []) := by
  refine includeCommand_eq_some_iff.mpr ⟨rfl, [' '], listText quote args, args.head hne,
    furtherText quote args.tail, by simp, List.all_eq_true.mp rfl, ?_, ?_, ?_, ?_⟩
  · exact commandText_eq quote args
  · obtain ⟨a, args, rfl⟩ := List.exists_cons_of_ne_nil hne
    rw [List.append_nil, listText_cons]
    exact looseLiteral?_quoted_append (hargs a (.head _)) _
  · have hall : afterLiterals (furtherText quote args.tail ++ []) = [] :=
      afterLiterals_furtherText (fun a ha => hargs a (List.mem_of_mem_tail ha)) rfl
    rw [← hall, List.append_nil]
  · exact (arguments_listText hargs).symm

/-! ## Positions in a line -/

theorem atWordStart_quote (quote : Quote) (p w : Text) :
    atWordStart (p ++ quote.char :: w).getLast? = atWordStart w.getLast? := by
  rw [List.getLast?_append_cons, List.getLast?_cons]
  cases w.getLast? with
  | none => cases quote <;> decide
  | some c => rfl

/-- A character stands in the first quoted text or after it. -/
theorem cases_of_quoted (hp : c ∉ p) (hc : c ≠ quote.char)
    (h : u ++ c :: v = p ++ (quoted quote a ++ t)) :
    (∃ w x, a = w ++ c :: x ∧ u = p ++ quote.char :: w ∧ v = x ++ quote.char :: t) ∨
      ∃ w, u = p ++ (quoted quote a ++ w) ∧ t = w ++ c :: v := by
  have hopen : c ∉ p ++ [quote.char] := by simp [hp, hc]
  rw [quoted_append, List.append_cons p] at h
  obtain ⟨u, rfl, hu⟩ := exists_of_append_cons hopen h
  rcases List.append_eq_append_iff.mp hu.symm with ⟨w, rfl, hw⟩ | ⟨w, rfl, hw⟩
  · cases w with
    | nil => exact absurd (List.cons.inj hw).1 hc
    | cons d x =>
      obtain ⟨rfl, rfl⟩ := List.cons.inj hw
      exact .inl ⟨u, x, rfl, by simp, rfl⟩
  · cases w with
    | nil => exact absurd (List.cons.inj hw).1.symm hc
    | cons d w =>
      obtain ⟨rfl, rfl⟩ := List.cons.inj hw
      exact .inr ⟨w, by simp [quoted], rfl⟩

theorem exists_argument_of_furtherText (hc : c ≠ quote.char) (hsep : c ∉ (", " : Text))
    (ht : c ∉ t) (h : u ++ c :: v = furtherText quote args ++ t) :
    ∃ front back p w x, args = front ++ (w ++ c :: x) :: back ∧ u = p ++ quote.char :: w ∧
      v = x ++ quote.char :: (furtherText quote back ++ t) := by
  induction args generalizing u with
  | nil =>
    have hnil : furtherText quote [] = [] := rfl
    have hmem : c ∈ t := by
      rw [hnil, List.nil_append] at h
      simp [← h]
    exact absurd hmem ht
  | cons a args ih =>
    rw [furtherText_cons, List.append_assoc, List.append_assoc] at h
    rcases cases_of_quoted hsep hc h with ⟨w, x, rfl, rfl, rfl⟩ | ⟨y, rfl, hy⟩
    · exact ⟨[], args, (", " : Text), w, x, rfl, rfl, rfl⟩
    · obtain ⟨front, back, p, w, x, rfl, rfl, rfl⟩ := ih hy.symm
      exact ⟨a :: front, back, (", " : Text) ++ (quoted quote a ++ p), w, x, rfl, by simp, rfl⟩

/-- A character that is not between the arguments of a list stands inside one of them. -/
theorem exists_argument_of_listText (hp : c ∉ p) (hc : c ≠ quote.char) (hsep : c ∉ (", " : Text))
    (ht : c ∉ t) (h : u ++ c :: v = p ++ (listText quote args ++ t)) :
    ∃ front back q w x, args = front ++ (w ++ c :: x) :: back ∧ u = q ++ quote.char :: w ∧
      v = x ++ quote.char :: (furtherText quote back ++ t) := by
  cases args with
  | nil =>
    have hnil : listText quote [] = [] := rfl
    have hmem : c ∈ p ++ t := by
      rw [hnil, List.nil_append] at h
      simp [← h]
    exact absurd hmem (by simp [hp, ht])
  | cons a args =>
    rw [listText_cons, List.append_assoc] at h
    rcases cases_of_quoted hp hc h with ⟨w, x, rfl, rfl, rfl⟩ | ⟨y, rfl, hy⟩
    · exact ⟨[], args, p, w, x, rfl, rfl, rfl⟩
    · obtain ⟨front, back, q, w, x, rfl, rfl, rfl⟩ :=
        exists_argument_of_furtherText hc hsep ht hy.symm
      exact ⟨a :: front, back, p ++ (quoted quote a ++ q), w, x, rfl, by simp, rfl⟩

/-- The line around a statement that an argument ends in. -/
theorem exists_line_eq (quote : Quote) (c : CodePoint) (front back : List Text) (t u w : Text) :
    ∃ p, withKeyword (c :: (listText quote (front ++ (w ++ withKeyword u) :: back) ++ t)) =
      (p ++ quote.char :: w) ++
        withKeyword (u ++ quote.char :: (furtherText quote back ++ t)) := by
  have hrest : quoted quote (w ++ withKeyword u) ++ (furtherText quote back ++ t) =
      quote.char :: w ++ withKeyword (u ++ quote.char :: (furtherText quote back ++ t)) := by
    rw [quoted_append, List.append_assoc, withKeyword_append, List.cons_append]
  cases front with
  | nil =>
    refine ⟨withKeyword [c], ?_⟩
    rw [List.nil_append, listText_cons, List.append_assoc, hrest, List.append_assoc,
      withKeyword_append]
    rfl
  | cons a front =>
    refine ⟨withKeyword (c :: (quoted quote a ++ (furtherText quote front ++ (", " : Text)))), ?_⟩
    rw [List.cons_append, listText_cons, furtherText_append, furtherText_cons, List.append_assoc,
      List.append_assoc, List.append_assoc, List.append_assoc, hrest, List.append_assoc _ (_ :: w),
      withKeyword_append]
    simp

/-- A statement in a line is the line's own, or it begins inside an argument. -/
theorem exists_argument_of_line (hc : c ≠ .char 'i') (ht : .char 'i' ∉ t)
    (h : withKeyword (c :: (listText quote args ++ t)) = u ++ withKeyword v) :
    u = [] ∨ ∃ front back q w x, args = front ++ (w ++ .char 'i' :: x) :: back ∧
      u = q ++ quote.char :: w ∧
      withKeyword v = .char 'i' :: (x ++ quote.char :: (furtherText quote back ++ t)) := by
  rw [withKeyword_eq_cons, withKeyword_eq_cons] at h
  cases u with
  | nil => exact .inl rfl
  | cons d u =>
    have hinner : u ++ .char 'i' :: (("nclude" : Text) ++ v) =
        (("nclude" : Text) ++ [c]) ++ (listText quote args ++ t) :=
      (List.cons.inj h).2.symm.trans (List.append_cons _ c _)
    have hquote : .char 'i' ≠ quote.char := by cases quote <;> decide
    have hstart : .char 'i' ∉ ("nclude" : Text) ++ [c] := by simp [hc.symm]
    obtain ⟨front, back, q, w, x, hargs, rfl, hv⟩ :=
      exists_argument_of_listText hstart hquote (by decide) ht hinner
    exact .inr ⟨front, back, d :: q, w, x, hargs, rfl, by rw [withKeyword_eq_cons, hv]⟩

end BuildChain.Settings
