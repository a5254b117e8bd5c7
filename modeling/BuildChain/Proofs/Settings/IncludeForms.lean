import BuildChain.Proofs.Settings.OneLine

/-! # The two forms of include statements

A call and a command include what stands between their quotes, unless an argument looks like a
part of a statement itself. A parenthesis closes a call also inside quotes, and the word `include`
opens a statement there. It is stated exactly for which arguments each form includes them as they
are.
-/

namespace BuildChain.Settings

open Text

variable {c d : CodePoint} {quote : Quote} {a b content rest t u v w : Text}
  {args back values : List Text}

/-! ## Texts that look like statements -/

/-- At the start of a word in the text stands the keyword, and `p` holds of what follows it. -/
def EndsInStatement (p : Text → Prop) (a : Text) : Prop :=
  ∃ w u, a = w ++ withKeyword u ∧ atWordStart w.getLast? = true ∧ p u

instance {p : Text → Prop} [DecidablePred p] : DecidablePred (EndsInStatement p) := by
  intro a
  refine decidable_of_iff (∃ w ∈ a.inits, ∃ u ∈ a.tails,
    a = w ++ withKeyword u ∧ atWordStart w.getLast? = true ∧ p u) ⟨?_, ?_⟩
  · rintro ⟨w, -, u, -, h⟩
    exact ⟨w, u, h⟩
  · rintro ⟨w, u, rfl, hu⟩
    refine ⟨w, ?_, u, ?_, rfl, hu⟩
    · exact (List.mem_inits _ _).mpr (List.prefix_append w _)
    · exact (List.mem_tails _ _).mpr ⟨w ++ ("include" : Text), List.append_assoc w _ u⟩

/-- A quote after the text is read as that of the first argument of a command. -/
def OpensCommand : Text → Prop :=
  EndsInStatement fun u => u ≠ [] ∧ u.all isBlank = true

/-- The text opens a call that it does not close. -/
def OpensCall : Text → Prop :=
  EndsInStatement fun u => (skipBlanks u).head? = some (.char '(') ∧ .char ')' ∉ u

instance : DecidablePred OpensCommand :=
  inferInstanceAs (DecidablePred (EndsInStatement _))

instance : DecidablePred OpensCall :=
  inferInstanceAs (DecidablePred (EndsInStatement _))

/-! ## Scans of a line -/

/-- A form over the whole text leaves nothing else to the scan that finds it. -/
theorem marks_of_read {α : Type} {read : Reader α} {value : α}
    (h : read none (c :: t) = some (value, [])) :
    marks read (c :: t) = .start value :: List.replicate t.length .inside := by
  have hread : read none (c :: t ++ []) = some (value, []) := by rwa [List.append_nil]
  have hmarks := marksFrom_of_read hread
  simpa [marks, marksFrom] using hmarks

theorem marks_of_eq_none {α : Type} {read : Reader α} (h : read none (c :: t) = none) :
    marks read (c :: t) = .free c :: marksFrom read 0 (some c) t := by
  simp [marks, marksFrom, h]

theorem filterMap_inside {α : Type} (n : Nat) :
    (List.replicate n (.inside : Mark α)).filterMap Mark.value? = [] := by
  simp [Mark.value?, List.filterMap_replicate]

/-- A call over the whole text comes before all commands in it. -/
theorem includes_of_call (hcall : includeCall none (c :: t) = some (values, []))
    (hcommand : includeCommand none (c :: t) = none) :
    includes (c :: t) = values ++ (occurrences includeCommand (c :: t)).flatten := by
  rw [includes, occurrences, marks_of_read hcall, marks_of_eq_none hcommand,
    List.zipWith_cons_cons, List.flatten_cons,
    flatten_zipWith (by simp [length_marksFrom]) (.inl (filterMap_inside _)), filterMap_inside]
  simp [argumentsAt, Mark.value?, List.filterMap_cons]

/-- A command over the whole text comes before all calls in it. -/
theorem includes_of_command (hcommand : includeCommand none (c :: t) = some (values, []))
    (hcall : includeCall none (c :: t) = none) :
    includes (c :: t) = values ++ (occurrences includeCall (c :: t)).flatten := by
  rw [includes, occurrences, marks_of_read hcommand, marks_of_eq_none hcall,
    List.zipWith_cons_cons, List.flatten_cons,
    flatten_zipWith (by simp [length_marksFrom]) (.inr (filterMap_inside _)), filterMap_inside]
  simp [argumentsAt, Mark.value?, List.filterMap_cons]

/-- What is included is an argument of a statement that was found. -/
theorem exists_found_of_mem_includes (h : a ∈ includes t) :
    (∃ values ∈ occurrences includeCall t, a ∈ values) ∨
      ∃ values ∈ occurrences includeCommand t, a ∈ values := by
  have hvalue {m : Mark (List Text)} {ms : List (Mark (List Text))} (hm : m ∈ ms)
      (ha : a ∈ m.value?.getD []) : ∃ values ∈ ms.filterMap Mark.value?, a ∈ values := by
    cases hvalue : m.value? with
    | none => simp [hvalue] at ha
    | some values =>
      exact ⟨values, List.mem_filterMap.mpr ⟨m, hm, hvalue⟩, by simpa [hvalue] using ha⟩
  rw [includes, ← List.map_uncurry_zip_eq_zipWith] at h
  obtain ⟨values, hvalues, ha⟩ := List.mem_flatten.mp h
  obtain ⟨⟨m, n⟩, hzip, rfl⟩ := List.mem_map.mp hvalues
  obtain ⟨hm, hn⟩ := List.of_mem_zip hzip
  rcases List.mem_append.mp ha with ha | ha
  · exact .inl (hvalue hm ha)
  · exact .inr (hvalue hn ha)

theorem notMem_blanks_append (hc : isBlank c = false) (hw : ∀ d ∈ w, isBlank d = true)
    (ht : c ∉ t) : c ∉ w ++ t := by
  rw [List.mem_append, or_iff_left ht]
  intro hmem
  simp [hw c hmem] at hc

theorem notMem_withKeyword_append (hkey : c ∉ ("include" : Text)) (hc : isBlank c = false)
    (hw : ∀ d ∈ w, isBlank d = true) (ht : c ∉ t) : c ∉ withKeyword (w ++ t) := by
  rw [mem_withKeyword_iff hkey]
  exact notMem_blanks_append hc hw ht

/-- If a call with arguments can be read anywhere, then one is found: a call that is found before
it and reaches into it ends at the same parenthesis, so its arguments are among the quotes of
that one too. -/
theorem exists_found_call (hread : includeCall u.getLast? (c :: v) = some (values, t))
    (hvalues : values ≠ []) :
    ∃ found ∈ occurrences includeCall (u ++ c :: v), found ≠ [] := by
  obtain ⟨u₁, u₂, found, rest, rfl, hfound, hmem, hend⟩ := exists_found_of_read hread
  refine ⟨found, hmem, ?_⟩
  obtain ⟨-, blanks, inner, hblanks, hinner, hv, rfl⟩ := includeCall_eq_some_iff.mp hread
  obtain ⟨-, blanks', inner', hblanks', hinner', hv', rfl⟩ := includeCall_eq_some_iff.mp hfound
  have hform : .char ')' ∉ withKeyword (blanks ++ .char '(' :: inner) :=
    notMem_withKeyword_append (by decide) (by decide) hblanks (by simp [hinner])
  have hform' : .char ')' ∉ withKeyword (blanks' ++ .char '(' :: inner') :=
    notMem_withKeyword_append (by decide) (by decide) hblanks' (by simp [hinner'])
  have hv : c :: v = withKeyword (blanks ++ .char '(' :: inner) ++ .char ')' :: t := by
    rw [hv, withKeyword_append, List.append_assoc, List.cons_append]
  have hv' : u₂ ++ c :: v = withKeyword (blanks' ++ .char '(' :: inner') ++ .char ')' :: rest := by
    rw [hv', withKeyword_append, List.append_assoc, List.cons_append]
  -- no parenthesis closes the first call before the second one begins
  have hu₂ : .char ')' ∉ u₂ := by
    intro hclose
    obtain ⟨x, y, rfl, hx⟩ := List.eq_append_cons_of_mem hclose
    rw [List.append_assoc, List.cons_append] at hv'
    obtain ⟨-, rfl⟩ := (append_cons_inj hx hform').mp hv'
    rcases hend with hend | hend
    · simp at hend
    · rw [List.length_append, List.length_cons] at hend
      omega
  have hsame : u₂ ++ withKeyword (blanks ++ .char '(' :: inner) =
      withKeyword (blanks' ++ .char '(' :: inner') := by
    rw [hv, ← List.append_assoc] at hv'
    exact ((append_cons_inj (by simp [hu₂, hform]) hform').mp hv').1
  have hsuffix : inner <:+ inner' := by
    have hopen : .char '(' ∉ withKeyword blanks' := by
      have := notMem_withKeyword_append (t := []) (by decide) (by decide : isBlank '(' = false)
        hblanks' List.not_mem_nil
      rwa [List.append_nil] at this
    rw [← withKeyword_append, ← withKeyword_append, ← List.append_assoc] at hsame
    obtain ⟨p, -, hp⟩ := exists_of_append_cons hopen hsame
    cases p with
    | nil =>
      obtain ⟨-, rfl⟩ := List.cons.inj hp
      exact List.suffix_rfl
    | cons d p =>
      obtain ⟨-, rfl⟩ := List.cons.inj hp
      exact ⟨p ++ [CodePoint.char '('], by simp⟩
  exact fun hnil => hvalues (arguments_eq_nil_of_suffix hsuffix hnil)

/-! ## Commands in the line of a call -/

/-- What follows an argument in the line of a call. -/
def callTail (args : List Text) : Text :=
  .char '"' :: (furtherText .double args ++ [CodePoint.char ')'])

theorem callTail_cons (a : Text) (args : List Text) :
    callTail (a :: args) = .char '"' :: ((", " : Text) ++ .char '"' :: (a ++ callTail args)) := by
  rw [callTail, furtherText_cons, List.append_assoc, List.append_assoc, quoted_append]
  rfl

/-- The only literal that begins with a closing quote is the one between two arguments. -/
theorem exists_of_literal (h : callTail args = c :: (content ++ d :: t))
    (hcontent : ∀ c ∈ content, isQuote c = false) (hd : isQuote d = true) :
    ∃ b back, args = b :: back ∧ content = (", " : Text) ∧ d = '"' ∧ t = b ++ callTail back := by
  cases args with
  | nil =>
    have hmem : d ∈ [.char ')'] := by
      rw [show [.char ')'] = content ++ d :: t from (List.cons.inj h).2]
      simp
    obtain rfl : d = ')' := List.mem_singleton.mp hmem
    exact absurd hd (by decide)
  | cons b back =>
    rw [callTail_cons] at h
    obtain ⟨rfl, rfl, rfl⟩ :=
      eq_of_append_quote (not_quote_of_any rfl) hcontent (by decide) hd (List.cons.inj h).2
    exact ⟨b, back, rfl, rfl, rfl, rfl⟩

/-- An argument that is passed on the way to a further literal is a comma between blanks. -/
theorem exists_of_afterNext? (ha : Quotable a)
    (h : afterNext? (a ++ callTail args) = some t) :
    .char ')' ∉ a ∧ ∃ b back, args = b :: back ∧ t = b ++ callTail back := by
  obtain ⟨u, hcomma, h⟩ := Option.bind_eq_some_iff.mp h
  obtain ⟨⟨content, t⟩, hliteral, rfl⟩ := Option.map_eq_some_iff.mp h
  obtain ⟨-, hcontent, c, d, hc, hd, rfl⟩ := looseLiteral?_eq_some_iff.mp hliteral
  obtain ⟨v, w, hv, hw, htext⟩ := exists_of_comma? hcomma
  have hblanks : ∀ c ∈ v ++ .char ',' :: w, isBlank c = true ∨ c = .char ',' := by
    intro c hc
    simp only [List.mem_append, List.mem_cons] at hc
    rcases hc with hc | rfl | hc
    · exact .inl (hv c hc)
    · exact .inr rfl
    · exact .inl (hw c hc)
  have hquote : ∀ c ∈ v ++ .char ',' :: w, isQuote c = false := by
    intro c hc
    rcases hblanks c hc with hc | rfl
    · exact isQuote_of_isBlank hc
    · decide
  rw [List.append_cons, ← List.append_assoc, ← List.append_cons] at htext
  obtain ⟨rfl, rfl, hrest⟩ := eq_of_append_quote ha.not_quote hquote (by decide) hc htext
  obtain ⟨b, back, rfl, -, -, rfl⟩ :=
    exists_of_literal (congrArg (List.cons (CodePoint.char '"')) hrest) hcontent hd
  refine ⟨fun hclose => ?_, b, back, rfl, rfl⟩
  rcases hblanks _ hclose with hclose | hclose
  · exact absurd hclose (by decide)
  · exact absurd hclose (by decide)

/-- A command that begins inside an argument passes no parenthesis after its first literal. The
induction follows the literals that it passes. -/
theorem exists_passed (ht : t = a ++ callTail args) (ha : Quotable a)
    (hargs : ∀ a ∈ args, Quotable a) : ∃ w, .char ')' ∉ w ∧ t = w ++ afterLiterals t := by
  fun_induction afterLiterals t generalizing a args with
  | case1 t hnext => exact ⟨[], List.not_mem_nil, rfl⟩
  | case2 t rest hnext _ ih =>
    subst ht
    obtain ⟨hclose, b, back, rfl, rfl⟩ := exists_of_afterNext? ha hnext
    obtain ⟨hb, hback⟩ := List.forall_mem_cons.mp hargs
    obtain ⟨w, hw, hpassed⟩ := ih rfl hb hback
    refine ⟨a ++ .char '"' :: ((", " : Text) ++ .char '"' :: w), by simp [hclose, hw], ?_⟩
    rw [List.append_assoc, List.cons_append, List.append_assoc, List.cons_append, ← hpassed,
      callTail_cons]

theorem not_quote_withKeyword (hw : ∀ c ∈ w, isBlank c = true) :
    ∀ c ∈ withKeyword w, isQuote c = false := by
  have hkey : ∀ c ∈ ("include" : Text), isQuote c = false := not_quote_of_any rfl
  intro c hc
  rcases List.mem_append.mp hc with hc | hc
  · exact hkey c hc
  · exact isQuote_of_isBlank (hw c hc)

theorem includeCommand_callText (args : List Text) : includeCommand none (callText args) = none :=
  includeCommand_open none _

/-- A command in the line of a call begins at the end of an argument, and another argument follows.
What it includes is found in the quotes around the commas, and it includes something. -/
theorem exists_of_command_in_call (hargs : ∀ a ∈ args, Quotable a) (htext : callText args = u ++ v)
    (hread : includeCommand u.getLast? v = some (values, t)) :
    (∃ front a b back, args = front ++ a :: b :: back ∧ OpensCommand a) ∧ values ≠ [] ∧
      ∀ a ∈ values, .char ')' ∉ a := by
  obtain ⟨hstart, blanks, passed, content, rest, hne, hblanks, rfl, hliteral, rfl, rfl⟩ :=
    includeCommand_eq_some_iff.mp hread
  obtain ⟨-, hcontent, c, d, hc, hd, hpassed⟩ := looseLiteral?_eq_some_iff.mp hliteral
  rcases exists_argument_of_line (by decide) (by decide) htext with
    rfl | ⟨front, back, q, w, x, rfl, rfl, hkey⟩
  · have hnone := includeCommand_callText args
    rw [htext] at hnone
    cases hnone.symm.trans hread
  · have hx : ∀ c ∈ .char 'i' :: x, isQuote c = false := by
      intro c hc
      exact (hargs _ (by simp)).not_quote c (List.mem_append_right w hc)
    rw [hpassed, ← withKeyword_append, ← List.cons_append] at hkey
    obtain ⟨hword, rfl, hcall⟩ :=
      eq_of_append_quote (not_quote_withKeyword hblanks) hx hc (by decide) hkey
    obtain ⟨b, back, rfl, rfl, rfl, rfl⟩ :=
      exists_of_literal (congrArg (List.cons (CodePoint.char '"')) hcall.symm) hcontent hd
    have hopens : OpensCommand (w ++ .char 'i' :: x) := by
      refine ⟨w, blanks, by rw [hword], ?_, hne, List.all_eq_true.mpr hblanks⟩
      rwa [atWordStart_quote] at hstart
    refine ⟨⟨front, _, b, back, rfl, hopens⟩, ?_⟩
    have hback : ∀ a ∈ b :: back, Quotable a :=
      fun a ha => hargs a (List.mem_append_right front (.tail _ ha))
    obtain ⟨hb, hback⟩ := List.forall_mem_cons.mp hback
    obtain ⟨z, hz, hrest⟩ := exists_passed rfl hb hback
    have hsame : passed = .char '"' :: ((", " : Text) ++ .char '"' :: z) := by
      refine List.append_cancel_right (hpassed.trans ?_)
      rw [List.cons_append, List.append_assoc, List.cons_append, ← hrest]
      rfl
    constructor
    · have hsome : arguments ([] ++ .char '"' :: ((", " : Text) ++ .char '"' :: z)) ≠ [] :=
        arguments_ne_nil (by decide)
      rwa [hsame]
    · intro a ha hclose
      have hmem : .char ')' ∈ passed := (infix_of_mem_arguments ha).subset hclose
      rw [hsame] at hmem
      simp [hz] at hmem

/-- The quotes around a comma between arguments are read as an argument of a command. -/
theorem occurrences_command_ne_nil (front : List Text) (hopens : OpensCommand a) :
    occurrences includeCommand (callText (front ++ a :: b :: back)) ≠ [] := by
  obtain ⟨w, blanks, rfl, hstart, hne, hblanks⟩ := hopens
  rw [List.all_eq_true] at hblanks
  obtain ⟨p, htext⟩ := exists_line_eq .double (.char '(') front (b :: back) [.char ')'] blanks w
  obtain ⟨z, hz⟩ := suffix_afterLiterals (b ++ callTail back)
  have hpassed :
      .char '"' :: ((", " : Text) ++ .char '"' :: z) ++ afterLiterals (b ++ callTail back) =
      callTail (b :: back) := by
    rw [callTail_cons, List.cons_append, List.append_assoc, List.cons_append, hz]
  have hliteral : looseLiteral? (callTail (b :: back)) =
      some ((", " : Text), b ++ callTail back) := by
    rw [callTail_cons]
    exact looseLiteral?_text (by decide) (by decide) (by decide) (not_quote_of_any rfl) _
  have hread : includeCommand (p ++ .char '"' :: w).getLast?
      (withKeyword (blanks ++ callTail (b :: back))) =
      some (arguments (.char '"' :: ((", " : Text) ++ .char '"' :: z)),
        afterLiterals (b ++ callTail back)) := by
    refine includeCommand_eq_some_iff.mpr ⟨?_, blanks, _, (", " : Text), _, hne, hblanks, ?_, ?_,
      rfl, rfl⟩
    · rw [← hstart]
      exact atWordStart_quote .double p w
    · rw [hpassed]
    · rw [hpassed]
      exact hliteral
  intro hnil
  rw [callText_eq, htext, withKeyword_eq_cons] at hnil
  cases (occurrences_eq_nil_iff.mp hnil _ (.char 'i') _ rfl).symm.trans hread

theorem mem_dropLast_iff : a ∈ args.dropLast ↔ ∃ front b back, args = front ++ a :: b :: back := by
  constructor
  · intro ha
    have hne : args ≠ [] := by
      rintro rfl
      exact absurd ha List.not_mem_nil
    obtain ⟨front, back, hsplit⟩ := List.append_of_mem ha
    have hargs := List.dropLast_concat_getLast hne
    rw [hsplit, List.append_assoc, List.cons_append] at hargs
    cases back with
    | nil => exact ⟨front, _, [], hargs.symm⟩
    | cons b back => exact ⟨front, b, _, hargs.symm⟩
  · rintro ⟨front, b, back, rfl⟩
    simp

theorem includes_callText (hargs : ∀ a ∈ args, Quotable a) (hclose : ∀ a ∈ args, .char ')' ∉ a) :
    includes (callText args) =
      args ++ (occurrences includeCommand (callText args)).flatten :=
  includes_of_call (includeCall_callText hargs hclose) (includeCommand_callText args)

/-- A call includes its arguments as they are unless a parenthesis closes it too early, or an
argument before the last one opens a command. -/
theorem includes_callText_iff (hargs : ∀ a ∈ args, Quotable a) :
    includes (callText args) = args ↔
      (∀ a ∈ args, .char ')' ∉ a) ∧ ∀ a ∈ args.dropLast, ¬ OpensCommand a := by
  constructor
  · intro hsame
    have hclose : ∀ a ∈ args, .char ')' ∉ a := by
      intro a ha
      rw [← hsame] at ha
      rcases exists_found_of_mem_includes ha with ⟨values, hfound, ha⟩ | ⟨values, hfound, ha⟩
      · obtain ⟨u, c, v, rest, -, hread⟩ := exists_read_of_mem_occurrences hfound
        obtain ⟨-, -, inner, -, hinner, -, rfl⟩ := includeCall_eq_some_iff.mp hread
        exact fun hmem => hinner ((infix_of_mem_arguments ha).subset hmem)
      · obtain ⟨u, c, v, rest, htext, hread⟩ := exists_read_of_mem_occurrences hfound
        exact (exists_of_command_in_call hargs htext hread).2.2 a ha
    refine ⟨hclose, fun a ha hopens => ?_⟩
    rw [includes_callText hargs hclose, List.append_right_eq_self] at hsame
    obtain ⟨front, b, back, rfl⟩ := mem_dropLast_iff.mp ha
    obtain ⟨values, hfound⟩ := List.exists_mem_of_ne_nil _ (occurrences_command_ne_nil front hopens)
    obtain ⟨u, c, v, rest, htext, hread⟩ := exists_read_of_mem_occurrences hfound
    obtain ⟨-, hne, -⟩ := exists_of_command_in_call hargs htext hread
    exact hne (List.flatten_eq_nil_iff.mp hsame values hfound)
  · rintro ⟨hclose, hopens⟩
    have hnone : occurrences includeCommand (callText args) = [] := by
      refine occurrences_eq_nil_iff.mpr fun u c v htext => ?_
      rw [Option.eq_none_iff_forall_ne_some]
      rintro ⟨values, rest⟩ hread
      obtain ⟨⟨front, a, b, back, hsplit, ha⟩, -⟩ := exists_of_command_in_call hargs htext hread
      exact hopens a (mem_dropLast_iff.mpr ⟨front, b, back, hsplit⟩) ha
    rw [includes_callText hargs hclose, hnone, List.flatten_nil, List.append_nil]

/-! ## Calls in the line of a command -/

theorem includeCall_commandText (quote : Quote) (hne : args ≠ []) :
    includeCall none (commandText quote args) = none := by
  obtain ⟨a, args, rfl⟩ := List.exists_cons_of_ne_nil hne
  have hlist : listText quote (a :: args) =
      quote.char :: (a ++ quote.char :: furtherText quote args) := by
    rw [listText_cons, quoted_append]
  have hnone := includeCall_quote quote none (a ++ quote.char :: furtherText quote args)
  rwa [← hlist] at hnone

/-- A call with arguments in the line of a command begins in an argument and ends in a later
one. -/
theorem exists_of_call_in_command (hne : args ≠ []) (hargs : ∀ a ∈ args, Quotable a)
    (htext : commandText quote args = u ++ v)
    (hread : includeCall u.getLast? v = some (values, t)) (hvalues : values ≠ []) :
    ∃ front a back, args = front ++ a :: back ∧ OpensCall a ∧ ∃ b ∈ back, .char ')' ∈ b := by
  obtain ⟨hstart, blanks, inner, hblanks, hinner, rfl, rfl⟩ := includeCall_eq_some_iff.mp hread
  rw [commandText_eq] at htext
  rcases exists_argument_of_line (by decide) (by decide) htext with
    rfl | ⟨front, back, q, w, x, rfl, rfl, hkey⟩
  · have hnone := includeCall_commandText quote hne
    rw [commandText_eq, htext] at hnone
    cases hnone.symm.trans hread
  · have hquote : quote.char ∉ withKeyword (blanks ++ [CodePoint.char '(']) := by
      cases quote <;> exact notMem_withKeyword_append (by decide) (by decide) hblanks (by decide)
    rw [List.append_cons, ← withKeyword_append, ← List.cons_append] at hkey
    obtain ⟨y, hword, hend⟩ := exists_of_append_cons hquote hkey.symm
    have hx : ∀ c ∈ y, isQuote c = false := by
      intro c hc
      refine (hargs (w ++ .char 'i' :: x) (by simp)).not_quote c ?_
      rw [hword]
      simp [hc]
    -- a call that ends in the argument in which it begins has no quotes in it
    have hclose : .char ')' ∉ y := by
      intro hmem
      obtain ⟨y, z, rfl, hy⟩ := List.eq_append_cons_of_mem hmem
      rw [List.append_assoc, List.cons_append] at hend
      obtain ⟨rfl, -⟩ := (append_cons_inj hinner hy).mp hend
      exact hvalues (arguments_of_not_quote fun c hc => hx c (by simp [hc]))
    refine ⟨front, w ++ .char 'i' :: x, back, rfl, ?_, ?_⟩
    · refine ⟨w, blanks ++ .char '(' :: y, ?_, ?_, ?_, ?_⟩
      · rw [hword, withKeyword_append, List.append_assoc]
        rfl
      · rwa [atWordStart_quote] at hstart
      · rw [skipBlanks_append hblanks, skipBlanks_cons (by decide)]
        rfl
      · exact notMem_blanks_append (by decide) hblanks (by simp [hclose])
    · have hmem : .char ')' ∈ y ++ quote.char :: (furtherText quote back ++ []) := by
        rw [← hend]
        simp
      simpa [hclose, quote.char_ne_close, close_mem_furtherText_iff quote] using hmem

/-- A call that an argument opens ends at the first parenthesis in a later one, and takes the comma
after the argument for one of its own. -/
theorem exists_call_ne_nil (quote : Quote) (front : List Text) (hopens : OpensCall a)
    (hb : b ∈ back) (hclose : .char ')' ∈ b) :
    ∃ values ∈ occurrences includeCall (commandText quote (front ++ a :: back)), values ≠ [] := by
  obtain ⟨w, x, rfl, hstart, hopen, hx⟩ := hopens
  obtain ⟨blanks, inner, hblanks, rfl⟩ :
      ∃ blanks inner, (∀ c ∈ blanks, isBlank c = true) ∧ x = blanks ++ .char '(' :: inner := by
    obtain ⟨inner, hinner⟩ := List.head?_eq_some_iff.mp hopen
    refine ⟨x.takeWhile isBlank, inner, fun c hc => List.mem_takeWhile_imp hc, ?_⟩
    rw [← hinner, List.takeWhile_append_dropWhile]
  obtain ⟨p, htext⟩ :=
    exists_line_eq quote (.char ' ') front back [] (blanks ++ .char '(' :: inner) w
  obtain ⟨y, rest, hfurther, hy⟩ :=
    List.eq_append_cons_of_mem ((close_mem_furtherText_iff quote).mpr ⟨b, hb, hclose⟩)
  -- the comma and the quotes around it stand before the parenthesis
  obtain ⟨z, rfl⟩ : ∃ z, y = (", " : Text) ++ quote.char :: z := by
    obtain ⟨d, back, rfl⟩ := List.exists_cons_of_ne_nil (List.ne_nil_of_mem hb)
    have hcomma : .char ')' ∉ (", " : Text) ++ [quote.char] := by
      simp [quote.char_ne_close]
    rw [furtherText_cons, quoted_append, List.append_cons] at hfurther
    obtain ⟨z, hz, -⟩ := exists_of_append_cons hcomma hfurther.symm
    exact ⟨z, by rw [hz, ← List.append_cons]⟩
  have hread : includeCall (p ++ quote.char :: w).getLast?
      (withKeyword (blanks ++ .char '(' :: inner ++ quote.char :: (furtherText quote back ++ []))) =
      some (arguments (inner ++ quote.char :: ((", " : Text) ++ quote.char :: z)), rest) := by
    refine includeCall_eq_some_iff.mpr ⟨?_, blanks, _, hblanks, ?_, ?_, rfl⟩
    · rwa [atWordStart_quote]
    · have hinner : .char ')' ∉ inner := fun hmem => hx (by simp [hmem])
      rw [List.append_cons, List.mem_append, not_or]
      exact ⟨by simp [hinner, quote.char_ne_close], hy⟩
    · rw [hfurther]
      simp
  rw [commandText_eq, htext, withKeyword_eq_cons]
  rw [withKeyword_eq_cons] at hread
  exact exists_found_call hread (arguments_ne_nil quote.isQuote_char)

theorem includes_commandText (hne : args ≠ []) (hargs : ∀ a ∈ args, Quotable a) :
    includes (commandText quote args) =
      args ++ (occurrences includeCall (commandText quote args)).flatten :=
  includes_of_command (includeCommand_commandText hne hargs) (includeCall_commandText quote hne)

/-- A command includes its arguments as they are unless one of them opens a call that a later one
closes. -/
theorem includes_commandText_iff (hne : args ≠ []) (hargs : ∀ a ∈ args, Quotable a) :
    includes (commandText quote args) = args ↔
      args.Pairwise fun a b => OpensCall a → .char ')' ∉ b := by
  rw [includes_commandText hne hargs, List.append_right_eq_self, List.flatten_eq_nil_iff,
    List.pairwise_iff_forall_sublist]
  constructor
  · intro hnil a b hsublist hopens hclose
    obtain ⟨front, back, rfl, ha, hb⟩ := List.cons_sublist_iff.mp hsublist
    obtain ⟨front, middle, rfl⟩ := List.append_of_mem ha
    have hback : b ∈ middle ++ back :=
      List.mem_append_right middle (List.singleton_sublist.mp hb)
    obtain ⟨values, hfound, hvalues⟩ := exists_call_ne_nil quote front hopens hback hclose
    rw [List.append_assoc, List.cons_append] at hnil
    exact hvalues (hnil values hfound)
  · intro hpairs values hfound
    by_contra hvalues
    obtain ⟨u, c, v, rest, htext, hread⟩ := exists_read_of_mem_occurrences hfound
    obtain ⟨front, a, back, rfl, hopens, b, hb, hclose⟩ :=
      exists_of_call_in_command hne hargs htext hread hvalues
    have hsublist : [a, b].Sublist (front ++ a :: back) :=
      ((List.singleton_sublist.mpr hb).cons_cons a).trans (List.sublist_append_right front _)
    exact hpairs hsublist hopens hclose

/-- Both forms give exactly what is between the quotes, unless an argument looks like a part of a
statement. -/
theorem includes_line_iff (args : List Text) (hne : args ≠ []) (hargs : ∀ a ∈ args, Quotable a) :
    (includes (callText args) = args ↔
      (∀ a ∈ args, .char ')' ∉ a) ∧ ∀ a ∈ args.dropLast, ¬ OpensCommand a) ∧
    ∀ quote, includes (commandText quote args) = args ↔
      args.Pairwise fun a b => OpensCall a → .char ')' ∉ b :=
  ⟨includes_callText_iff hargs, fun _ => includes_commandText_iff hne hargs⟩

/-- Blanks and the start of a call do no harm. -/
theorem includes_line_blanks :
    let args : List Text := [("web app" : Text), ("include (x" : Text), ("include " : Text)]
    includes (callText args) = args ∧ ∀ quote, includes (commandText quote args) = args := by
  intro args
  obtain ⟨hcall, hcommand⟩ := includes_line_iff args (by decide) (by decide)
  exact ⟨hcall.mpr (by decide), fun quote => (hcommand quote).mpr (by decide)⟩

/-- A parenthesis in a text closes the call, and the comma after a text that ends in the word of a
command is read as its argument. -/
theorem includes_line_differ :
    includes (callText [("a)b" : Text)]) = [] ∧
    includes (commandText .double [("a)b" : Text)]) = [("a)b" : Text)] ∧
    includes (commandText .single [("a)b" : Text)]) = [("a)b" : Text)] ∧
    includes (callText [("include " : Text), ("b" : Text)]) =
      [("include " : Text), ("b" : Text), (", " : Text)] := by
  decide +kernel

end BuildChain.Settings
