import BuildChain.Proofs.Settings.Tokens

/-! # Scripts without comments

Taking out the comments leaves none behind. The characters around a comment come together, and a
quote that was never closed may become the start of a literal, but this literal ends where a token
starts, so what follows it is scanned as before.
-/

namespace BuildChain.Settings

open Text

variable {a b c quote : CodePoint} {escaped escaped' : Bool} {t u v w form rest : Text}

/-! ## Block comments that are never closed -/

theorem infix_append_cases (h : [a, b] <:+: v ++ w) :
    [a, b] <:+: v ∨ [a, b] <:+: w ∨ v.getLast? = some a ∧ [b] <+: w := by
  induction v with
  | nil => exact Or.inr (Or.inl h)
  | cons c v ih =>
    rcases List.infix_cons_iff.mp h with hprefix | hinfix
    · obtain ⟨rfl, hnext⟩ := List.cons_prefix_cons.mp hprefix
      cases v with
      | nil => exact Or.inr (Or.inr ⟨rfl, hnext⟩)
      | cons d v =>
        obtain ⟨rfl, -⟩ := List.cons_prefix_cons.mp hnext
        exact Or.inl (List.prefix_append [a, b] v).isInfix
    · rcases ih hinfix with hv | hw | ⟨hlast, hnext⟩
      · exact Or.inl (hv.trans (List.suffix_cons c v).isInfix)
      · exact Or.inr (Or.inl hw)
      · refine Or.inr (Or.inr ⟨?_, hnext⟩)
        rw [List.getLast?_cons, hlast]
        rfl

theorem afterBlock?_eq_none_iff : afterBlock? t = none ↔ ¬ [.char '*', .char '/'] <:+: t := by
  fun_induction afterBlock? t with
  | case1 t =>
    have hinfix : [.char '*', .char '/'] <:+: .char '*' :: .char '/' :: t :=
      (List.prefix_append [.char '*', .char '/'] t).isInfix
    exact iff_of_false (by simp) (not_not_intro hinfix)
  | case2 c t hc ih =>
    rw [ih, List.infix_cons_iff, not_or]
    have hprefix : ¬ [.char '*', .char '/'] <+: c :: t := by
      rintro ⟨u, hu⟩
      obtain ⟨rfl, rfl⟩ := List.cons.inj hu
      exact hc u rfl rfl
    exact (and_iff_right hprefix).symm
  | case3 => simp

theorem slash_prefix_of_stripComments (h : [.char '/'] <+: stripComments t) :
    [.char '/'] <+: t := by
  induction t using token_induction with
  | nil => exact h
  | free c t hread =>
    rw [stripComments_cons hread] at h
    exact List.cons_prefix_cons.mpr ⟨(List.cons_prefix_cons.mp h).1, List.nil_prefix⟩
  | literal quote form t hform =>
    rw [stripComments_literal hform] at h
    have hquote := (List.cons_prefix_cons.mp h).1
    cases quote <;> exact absurd hquote (by decide)
  | comment form t => exact List.prefix_append [CodePoint.char '/'] _

/-- A comment starts with a slash, so a star in front of it would have closed the block. -/
theorem infix_of_stripComments (h : [.char '*', .char '/'] <:+: stripComments t) :
    [.char '*', .char '/'] <:+: t := by
  induction t using token_induction with
  | nil => exact h
  | free c t hread ih =>
    rw [stripComments_cons hread] at h
    rcases List.infix_cons_iff.mp h with hprefix | hinfix
    · obtain ⟨hstar, hslash⟩ := List.cons_prefix_cons.mp hprefix
      have hslash := slash_prefix_of_stripComments hslash
      exact (List.cons_prefix_cons.mpr ⟨hstar, hslash⟩).isInfix
    · exact (ih t le_rfl hinfix).trans (List.suffix_cons c t).isInfix
  | literal quote form t hform ih =>
    rw [stripComments_literal hform] at h
    rcases infix_append_cases h with hliteral | hrest | ⟨hlast, -⟩
    · exact hliteral.trans (List.prefix_append _ _).isInfix
    · exact (ih t le_rfl hrest).trans (List.suffix_append _ _).isInfix
    · rw [List.getLast?_cons, getLast?_of_closing? hform, Option.some_inj] at hlast
      cases quote <;> exact absurd hlast (by decide)
  | comment form t hread ih =>
    rw [stripComments_comment hread] at h
    rcases infix_append_cases h with hbreaks | hrest | ⟨hlast, -⟩
    · have hstar := hbreaks.subset List.mem_cons_self
      simp at hstar
    · exact (ih t le_rfl hrest).trans (List.suffix_append _ _).isInfix
    · have hstar := List.mem_of_getLast? hlast
      simp at hstar

theorem read?_slash_eq_none_iff :
    Token.read? ('/' :: t) = none ↔
      ¬ [.char '/'] <+: t ∧ ∀ u, t = .char '*' :: u → ¬ [.char '*', .char '/'] <:+: u := by
  cases t with
  | nil => simp [Token.read?]
  | cons d t =>
    by_cases hslash : d = '/'
    · simp [hslash, Token.read?]
    · by_cases hstar : d = '*'
      · simp [hstar, Token.read?, afterBlock?_eq_none_iff]
      · have hnone : Token.read? ('/' :: d :: t) = none := by
          unfold Token.read?
          split <;> simp_all
        simp [hnone, hstar, Ne.symm hslash]

theorem star_cases_of_stripComments (h : stripComments t = .char '*' :: v) :
    [.char '/'] <+: t ∨ ∃ u, t = .char '*' :: u ∧ v = stripComments u := by
  induction t using token_induction with
  | nil => cases h
  | free c t hread =>
    rw [stripComments_cons hread] at h
    obtain ⟨rfl, rfl⟩ := List.cons.inj h
    exact Or.inr ⟨t, rfl, rfl⟩
  | literal quote form t hform =>
    rw [stripComments_literal hform] at h
    have hquote := (List.cons.inj h).1
    cases quote <;> exact absurd hquote (by decide)
  | comment form t => exact Or.inl (List.prefix_append [CodePoint.char '/'] _)

/-- A slash that starts no comment starts none when the comments after it are gone. -/
theorem read?_slash_stripComments (h : Token.read? ('/' :: t) = none) :
    Token.read? ('/' :: stripComments t) = none := by
  rw [read?_slash_eq_none_iff] at h ⊢
  obtain ⟨hslash, hblock⟩ := h
  refine ⟨fun hprefix => hslash (slash_prefix_of_stripComments hprefix), fun v hv hinfix => ?_⟩
  rcases star_cases_of_stripComments hv with hprefix | ⟨u, rfl, rfl⟩
  · exact hslash hprefix
  · exact hblock u rfl (infix_of_stripComments hinfix)

/-! ## Literals that are never closed -/

/-- A literal that is closed only without the comments ends where a token starts. -/
theorem exists_of_closing?_stripComments (quote : Quote)
    (h : closing? quote.char escaped t = none)
    (hrest : closing? quote.char escaped' (stripComments t) = some rest) :
    ∃ u, u <:+ t ∧ rest = stripComments u := by
  induction t using token_induction generalizing escaped escaped' with
  | nil => cases hrest
  | free c t hread ih =>
    rw [stripComments_cons hread] at hrest
    obtain ⟨e, h⟩ := exists_closing?_eq_none (w := [c]) h
    rcases closing?_cons_cases hrest with rfl | ⟨e', hrest⟩
    · exact ⟨t, List.suffix_cons c t, rfl⟩
    · obtain ⟨u, hu, rfl⟩ := ih t le_rfl h hrest
      exact ⟨u, hu.trans (List.suffix_cons c t), rfl⟩
  | literal other form t hform ih =>
    have hbackslash : other.char ≠ '\\' := by cases other <;> decide
    have hother : other.char ≠ quote.char := by
      intro he
      rw [he] at hform hbackslash h
      cases escaped with
      | true =>
        have hclosed := closing?_append_of_some hform t
        exact absurd (hclosed.symm.trans h) (by simp)
      | false =>
        rw [List.cons_append, closing?, if_neg hbackslash, if_pos rfl] at h
        cases h
    rw [List.cons_append, closing?_cons hbackslash hother] at h
    rw [stripComments_literal hform, List.cons_append, closing?_cons hbackslash hother] at hrest
    have hopen : closing? quote.char false form = none := closing?_of_append h
    obtain ⟨e, happend⟩ := exists_closing?_append hopen
    rw [happend] at h hrest
    obtain ⟨u, hu, rfl⟩ := ih t le_rfl h hrest
    exact ⟨u, hu.trans (List.suffix_append _ _), rfl⟩
  | comment form t hread ih =>
    have hbreaks : quote.char ∉ (.char '/' :: form).filter (· = .char '\n') := by
      intro hm
      obtain ⟨-, he⟩ := List.mem_filter.mp hm
      cases quote <;> exact absurd he (by decide)
    obtain ⟨e', happend⟩ := exists_closing?_append (closing?_of_notMem escaped' hbreaks)
    rw [stripComments_comment hread, happend] at hrest
    obtain ⟨e, h⟩ := exists_closing?_eq_none h
    obtain ⟨u, hu, rfl⟩ := ih t le_rfl h hrest
    exact ⟨u, hu.trans (List.suffix_append _ _), rfl⟩

/-! ## What is left -/

/-- Every token of the script is a literal. -/
def CommentFree (script : Text) : Prop :=
  ∀ token, .start token ∈ tokenMarks script → ∃ text, token = .literal text

theorem commentFree_nil : CommentFree [] := by
  simp [CommentFree, tokenMarks, marks, marksFrom]

theorem tokenMarks_cons (h : Token.read? (c :: t) = none) :
    tokenMarks (c :: t) = .free c :: tokenMarks t := by
  unfold tokenMarks marks
  simp only [marksFrom, h]
  rw [marksFrom_const]

theorem tokenMarks_of_read {token : Token} (h : Token.read? (c :: form ++ t) = some (token, t)) :
    tokenMarks (c :: form ++ t) =
      .start token :: (List.replicate form.length .inside ++ tokenMarks t) := by
  unfold tokenMarks marks
  rw [marksFrom_of_read h, marksFrom_const]

theorem commentFree_cons (h : Token.read? (c :: t) = none) :
    CommentFree (c :: t) ↔ CommentFree t := by
  simp [CommentFree, tokenMarks_cons h]

theorem commentFree_literal {quote : Quote} (h : closing? quote.char false form = some []) :
    CommentFree (quote.char :: form ++ t) ↔ CommentFree t := by
  unfold CommentFree
  rw [tokenMarks_of_read (read?_literal h t)]
  simp

theorem commentFree_append_of_quiet (h : ∀ c ∈ w, ∀ t, Token.read? (c :: t) = none) :
    CommentFree (w ++ t) ↔ CommentFree t := by
  induction w with
  | nil => rfl
  | cons c w ih =>
    rw [List.forall_mem_cons] at h
    rw [List.cons_append, commentFree_cons (h.1 _), ih h.2]

/-- Nothing is taken out of a script without comments. -/
theorem stripComments_of_commentFree (h : CommentFree t) : stripComments t = t := by
  induction t using token_induction with
  | nil => rfl
  | free c t hread ih =>
    rw [commentFree_cons hread] at h
    rw [stripComments_cons hread, ih t le_rfl h]
  | literal quote form t hform ih =>
    rw [commentFree_literal hform] at h
    rw [stripComments_literal hform, ih t le_rfl h]
  | comment form t hread =>
    have hmem : .start (.comment (.char '/' :: form)) ∈ tokenMarks (.char '/' :: form ++ t) := by
      rw [tokenMarks_of_read hread]
      exact List.mem_cons_self
    obtain ⟨text, htext⟩ := h _ hmem
    cases htext

/-- A character that starts no token may start a literal when the comments after it are gone. -/
theorem read?_stripComments_eq_literal {token : Token} (h : Token.read? (c :: t) = none)
    (hread : Token.read? (c :: stripComments t) = some (token, rest)) :
    ∃ quote : Quote, ∃ form u, closing? quote.char false form = some [] ∧ u <:+ t ∧
      c :: stripComments t = quote.char :: form ++ stripComments u := by
  rcases read?_eq_some_cases hread with ⟨quote, form, hform, he⟩ | ⟨form, rfl, he⟩
  · obtain ⟨rfl, hrest⟩ := List.cons.inj he
    rw [read?_quote, Option.map_eq_none_iff] at h
    have hclosed : closing? quote.char false (stripComments t) = some rest := by
      rw [hrest]
      exact closing?_append_of_some hform rest
    obtain ⟨u, hu, rfl⟩ := exists_of_closing?_stripComments quote h hclosed
    exact ⟨quote, form, u, hform, hu, he⟩
  · obtain ⟨rfl, -⟩ := List.cons.inj he
    rw [read?_slash_stripComments h] at hread
    cases hread

theorem commentFree_stripComments (t : Text) : CommentFree (stripComments t) := by
  induction t using token_induction with
  | nil => exact commentFree_nil
  | free c t hread ih =>
    rw [stripComments_cons hread]
    cases hagain : Token.read? (c :: stripComments t) with
    | none =>
      rw [commentFree_cons hagain]
      exact ih t le_rfl
    | some result =>
      obtain ⟨quote, form, u, hform, hu, he⟩ := read?_stripComments_eq_literal hread hagain
      rw [he, commentFree_literal hform]
      exact ih u hu.length_le
  | literal quote form t hform ih =>
    rw [stripComments_literal hform, commentFree_literal hform]
    exact ih t le_rfl
  | comment form t hread ih =>
    have hbreaks : ∀ c ∈ (.char '/' :: form).filter (· = .char '\n'), ∀ u,
        Token.read? (c :: u) = none := by
      intro c hc u
      obtain ⟨-, he⟩ := List.mem_filter.mp hc
      obtain rfl : c = '\n' := by simpa using he
      rfl
    rw [stripComments_comment hread, commentFree_append_of_quiet hbreaks]
    exact ih t le_rfl

/-- Two backslashes meet where a comment was taken out, so the quote behind them closes a literal
that was open before. -/
example : stripComments ("\" \\/* c */\\\"" : Text) = ("\" \\\\\"" : Text) := by
  decide +kernel

/-- The comments of any script are taken out once and for all. -/
theorem stripComments_stripComments (source : Text) :
    (∀ token, .start token ∈ tokenMarks (stripComments source) →
      ∃ text, token = .literal text) ∧
    stripComments (stripComments source) = stripComments source :=
  ⟨commentFree_stripComments source,
    stripComments_of_commentFree (commentFree_stripComments source)⟩

end BuildChain.Settings
