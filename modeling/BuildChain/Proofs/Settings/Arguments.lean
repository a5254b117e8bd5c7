import BuildChain.Proofs.Settings.Keyed

/-! # Argument lists

The arguments of an include statement are found in the text of its chunks, with blanks where
fillers were. A command ends after its last argument, since no comma follows.
-/

namespace BuildChain.Settings

open Text

variable {before : Option CodePoint} {c d : CodePoint} {t u w : Text}

theorem looseLiteral?_text (hc : isQuote c = true) (hd : isQuote d = true) (hne : w ≠ [])
    (hw : ∀ x ∈ w, isQuote x = false) (t : Text) :
    looseLiteral? (c :: (w ++ d :: t)) = some (w, t) := by
  have hkeep : ∀ x ∈ w, (!isQuote x) = true := by simpa using hw
  obtain ⟨e, p, rfl⟩ := List.exists_cons_of_ne_nil hne
  rw [looseLiteral?, if_pos hc, takeWhile_append_cons hkeep (by simp [hd]),
    dropWhile_append_cons hkeep (by simp [hd])]

theorem looseLiteral?_quoted (quote : Quote) (content : PlainText) (t : Text) :
    looseLiteral? (quote.char :: (content.text ++ quote.char :: t)) = some (content.text, t) :=
  looseLiteral?_text quote.isQuote_char quote.isQuote_char content.ne_nil content.not_isQuote t

theorem argument_text (hc : isQuote c = true) (hw : c ∉ w) (before : Option CodePoint) (t : Text) :
    argument before (c :: (w ++ c :: t)) = some (w, t) := by
  have hkeep : ∀ d ∈ w, (d != c) = true :=
    fun d hd => bne_iff_ne.mpr fun he => hw (he ▸ hd)
  simp [argument, hc, takeWhile_append_cons hkeep, dropWhile_append_cons hkeep, after?]

theorem Quote.char_notMem (quote : Quote) (hw : ∀ c ∈ w, isQuote c = false) :
    quote.char ∉ w := by
  intro hmem
  have hquote := quote.isQuote_char
  rw [hw _ hmem] at hquote
  cases hquote

theorem argument_quoted (quote : Quote) (content : PlainText) (before : Option CodePoint)
    (t : Text) :
    argument before (quote.char :: (content.text ++ quote.char :: t)) =
      some (content.text, t) :=
  argument_text quote.isQuote_char (quote.char_notMem content.not_isQuote) before t

theorem not_quote_of_any (h : w.any isQuote = false) : ∀ c ∈ w, isQuote c = false := by
  simpa using h

theorem quiet_argument (h : ∀ c ∈ w, isQuote c = false) : Quiet argument w := by
  intro v hv hne before t
  obtain ⟨c, v, rfl⟩ := List.exists_cons_of_ne_nil hne
  have hc := h c (hv.subset (by simp))
  simp [argument, hc]

def Chunk.content? : Chunk → Option Text
  | quoted _ content => some content.text
  | _ => none

theorem finds_argument {chunk : Chunk} (h : ∀ w, chunk = .code w → IsCode w) :
    Finds argument before chunk.bare t chunk.content?.toList := by
  cases chunk with
  | code w => exact (quiet_argument fun c hc => ((h w rfl).of_mem hc).1).finds
  | quoted quote content =>
    refine .of_read ?_
    have := argument_quoted quote content before t
    simpa using this
  | filler f =>
    exact (quiet_argument fun c hc => isQuote_of_isBlank (f.isBlank_bare c hc)).finds

theorem finds_arguments {chunks : List Chunk} (h : ∀ w, .code w ∈ chunks → IsCode w) :
    Finds argument before (chunks.flatMap Chunk.bare) t (chunks.filterMap Chunk.content?) := by
  induction chunks generalizing before with
  | nil => exact .nil
  | cons chunk chunks ih =>
    have hchunk : ∀ w, chunk = .code w → IsCode w := by
      rintro w rfl
      exact h w (.head _)
    have hvalues : (chunk :: chunks).filterMap Chunk.content? =
        chunk.content?.toList ++ chunks.filterMap Chunk.content? := by
      cases hc : chunk.content? <;> simp [hc]
    rw [List.flatMap_cons, hvalues]
    exact (finds_argument hchunk).append (ih fun w hw => h w (.tail _ hw))

theorem content_argumentList (quote : Quote) (list : ArgumentList) :
    (list.chunks quote).filterMap Chunk.content? = list.texts := by
  have hfurther (further : List Further) :
      (further.flatMap (Further.chunks quote)).filterMap Chunk.content? =
        further.map (·.argument.text) := by
    induction further with
    | nil => rfl
    | cons f further ih =>
      rw [List.flatMap_cons, List.filterMap_append, ih]
      simp [Further.chunks, List.filterMap_cons, Chunk.content?]
  simp [ArgumentList.chunks, ArgumentList.texts, Chunk.content?, hfurther]

theorem content_trailing (trailing : Option (List Filler)) :
    (trailingChunks trailing).filterMap Chunk.content? = [] := by
  cases trailing <;> simp [trailingChunks, Chunk.content?]

theorem comma?_gap (gap : List Filler) (hc : isBlank c = false) (t : Text) :
    comma? (',' :: (gap.flatMap Filler.bare ++ c :: t)) = some (c :: t) := by
  have hblank : ∀ c ∈ gap.flatMap Filler.bare, isBlank c = true := by
    intro c hc
    obtain ⟨f, -, hc⟩ := List.mem_flatMap.mp hc
    exact f.isBlank_bare c hc
  have hcomma (u : Text) : after? ("," : Text) (',' :: u) = some u := after?_append [','] u
  rw [comma?, skipBlanks_cons (by decide), hcomma, Option.map_some, skipBlanks_append hblank,
    skipBlanks_cons hc]

theorem afterNext?_further (quote : Quote) (further : Further) (t : Text) :
    afterNext? ((further.chunks quote).flatMap Chunk.bare ++ t) = some t := by
  have hquote : isBlank quote.char = false := by cases quote <;> decide
  have htext : (further.chunks quote).flatMap Chunk.bare ++ t =
      .char ',' :: (further.gap.flatMap Filler.bare ++
        quote.char :: (further.argument.text ++ quote.char :: t)) := by
    simp [Further.chunks, Chunk.bare, Chunk.text, List.flatMap_map]
  rw [afterNext?, htext, comma?_gap _ hquote, Option.bind_some, looseLiteral?_quoted,
    Option.map_some]

theorem afterLiterals_of_none (h : afterNext? t = none) : afterLiterals t = t := by
  rw [afterLiterals]
  split
  · rfl
  · next he => simp [h] at he

theorem afterLiterals_of_no_comma (h : comma? t = none) : afterLiterals t = t :=
  afterLiterals_of_none (by rw [afterNext?, h, Option.bind_none])

theorem afterLiterals_of_some (h : afterNext? t = some u) : afterLiterals t = afterLiterals u := by
  rw [afterLiterals]
  split
  · next he => simp [h] at he
  · next he => rw [h] at he; cases he; rfl

/-- All further arguments are passed, and nothing after them. -/
theorem afterLiterals_further (quote : Quote) (further : List Further) (h : comma? t = none) :
    afterLiterals ((further.flatMap (Further.chunks quote)).flatMap Chunk.bare ++ t) = t := by
  induction further with
  | nil => exact afterLiterals_of_no_comma h
  | cons f further ih =>
    rw [List.flatMap_cons, List.flatMap_append, List.append_assoc,
      afterLiterals_of_some (afterNext?_further quote f _), ih]

theorem eq_of_code_mem {quote : Quote} {list : ArgumentList} {trailing : Option (List Filler)}
    (h : .code w ∈ list.chunks quote ++ trailingChunks trailing) : w = [','] :=
  (List.mem_append.mp h).elim eq_of_code_mem_arguments eq_of_code_mem_trailing

theorem arguments_call (list : ArgumentList) (trailing : Option (List Filler)) :
    arguments ((list.chunks .double ++ trailingChunks trailing).flatMap Chunk.bare) =
      list.texts := by
  have hcode (w : Text) (hw : .code w ∈ list.chunks .double ++ trailingChunks trailing) :
      IsCode w := by
    rw [eq_of_code_mem hw]
    decide
  rw [arguments, (finds_arguments hcode).occurrences, List.filterMap_append,
    content_argumentList, content_trailing, List.append_nil]

theorem arguments_command (list : ArgumentList) :
    arguments ((list.chunks .single).flatMap Chunk.bare) = list.texts := by
  have hcode (w : Text) (hw : .code w ∈ list.chunks .single) : IsCode w := by
    rw [eq_of_code_mem_arguments hw]
    decide
  rw [arguments, (finds_arguments hcode).occurrences, content_argumentList]

theorem close_notMem (list : ArgumentList) (trailing : Option (List Filler)) :
    .char ')' ∉ (list.chunks .double ++ trailingChunks trailing).flatMap Chunk.bare := by
  intro hm
  obtain ⟨chunk, hchunk, hm⟩ := List.mem_flatMap.mp hm
  cases chunk with
  | code w =>
    rw [Chunk.bare, eq_of_code_mem hchunk] at hm
    exact absurd hm (by decide)
  | quoted quote content => exact notMem_quoted (by decide) (by decide) hm
  | filler f => exact absurd (f.isBlank_bare _ hm) (by decide)

end BuildChain.Settings
