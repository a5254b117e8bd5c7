import BuildChain.Proofs.Settings.Stripping

/-! # Tokens of any script

A script is empty, or it starts with a single character, a literal or a comment, and the scan goes
on after that. A literal is known by its own characters, whatever follows it.
-/

namespace BuildChain.Settings

open Text

variable {c quote : CodePoint} {escaped : Bool} {t u v w form rest : Text}

/-! ## Inside a literal -/

/-- What follows the quote that closes a literal, of which a part is read already. The next
character is `escaped` if that part ends in a backslash that takes it along. -/
def closing? (quote : CodePoint) : (escaped : Bool) → Text → Option Text
  | _, [] => none
  | true, _ :: t => closing? quote false t
  | false, c :: t =>
    if c = '\\' then closing? quote true t
    else if c = quote then some t
    else closing? quote false t

theorem closing?_unescaped (quote c : CodePoint) (t : Text) :
    closing? quote false (c :: t) =
      if c = '\\' then closing? quote true t
      else if c = quote then some t
      else closing? quote false t :=
  rfl

theorem afterLiteral?_eq_closing? (quote : CodePoint) (t : Text) :
    afterLiteral? quote t = closing? quote false t := by
  fun_induction afterLiteral? quote t with
  | case1 => rfl
  | case2 => rfl
  | case3 c t ih => rw [ih]; rfl
  | case4 t hlast hnext =>
    have hquote : quote ≠ '\\' := by
      intro he
      cases t with
      | nil => exact hlast he rfl
      | cons d t => exact hnext d t he rfl
    rw [closing?_unescaped, if_neg hquote, if_pos rfl]
  | case5 c t hlast hnext hne ih =>
    have hc : c ≠ '\\' := by
      intro he
      cases t with
      | nil => exact hlast he rfl
      | cons d t => exact hnext d t he rfl
    rw [closing?_unescaped, if_neg hc, if_neg hne, ih]

theorem closing?_append_of_some (h : closing? quote escaped w = some v) (t : Text) :
    closing? quote escaped (w ++ t) = some (v ++ t) := by
  fun_induction closing? quote escaped w with
  | case1 => cases h
  | case2 c w ih => exact ih h
  | case3 w ih => exact ih h
  | case4 w hquote =>
    cases h
    rw [List.cons_append, closing?_unescaped, if_neg hquote, if_pos rfl]
  | case5 c w hc hquote ih =>
    rw [List.cons_append, closing?_unescaped, if_neg hc, if_neg hquote]
    exact ih h

/-- A part in which the literal is not closed can be left out, if it is known whether it takes the
next character along. -/
theorem exists_closing?_append (h : closing? quote escaped w = none) :
    ∃ escaped', ∀ t, closing? quote escaped (w ++ t) = closing? quote escaped' t := by
  fun_induction closing? quote escaped w with
  | case1 escaped => exact ⟨escaped, fun _ => rfl⟩
  | case2 c w ih => exact ih h
  | case3 w ih => exact ih h
  | case4 => cases h
  | case5 c w hc hquote ih =>
    obtain ⟨escaped', ih⟩ := ih h
    refine ⟨escaped', fun t => ?_⟩
    rw [List.cons_append, closing?_unescaped, if_neg hc, if_neg hquote, ih]

theorem closing?_of_append (h : closing? quote escaped (w ++ t) = none) :
    closing? quote escaped w = none := by
  by_contra hclosed
  obtain ⟨v, hv⟩ := Option.ne_none_iff_exists'.mp hclosed
  rw [closing?_append_of_some hv] at h
  cases h

theorem exists_closing?_eq_none (h : closing? quote escaped (w ++ t) = none) :
    ∃ escaped', closing? quote escaped' t = none := by
  obtain ⟨escaped', happend⟩ := exists_closing?_append (closing?_of_append h)
  exact ⟨escaped', happend t ▸ h⟩

theorem closing?_cons (hc : c ≠ '\\') (hquote : c ≠ quote) :
    closing? quote escaped (c :: t) = closing? quote false t := by
  cases escaped with
  | true => rfl
  | false => rw [closing?_unescaped, if_neg hc, if_neg hquote]

theorem closing?_cons_cases (h : closing? quote escaped (c :: t) = some rest) :
    rest = t ∨ ∃ escaped', closing? quote escaped' t = some rest := by
  cases escaped with
  | true => exact Or.inr ⟨false, h⟩
  | false =>
    rw [closing?_unescaped] at h
    split_ifs at h
    · exact Or.inr ⟨true, h⟩
    · exact Or.inl (Option.some.inj h).symm
    · exact Or.inr ⟨false, h⟩

/-- A literal is closed by its quote, and what is after that does not matter. -/
theorem exists_of_closing? (h : closing? quote escaped t = some rest) :
    ∃ body, t = body ++ quote :: rest ∧ closing? quote escaped (body ++ [quote]) = some [] := by
  fun_induction closing? quote escaped t with
  | case1 => cases h
  | case2 c t ih =>
    obtain ⟨body, rfl, hbody⟩ := ih h
    exact ⟨c :: body, rfl, hbody⟩
  | case3 t ih =>
    obtain ⟨body, rfl, hbody⟩ := ih h
    exact ⟨'\\' :: body, rfl, hbody⟩
  | case4 t hquote =>
    cases h
    exact ⟨[], rfl, by rw [List.nil_append, closing?_unescaped, if_neg hquote, if_pos rfl]⟩
  | case5 c t hc hquote ih =>
    obtain ⟨body, rfl, hbody⟩ := ih h
    exact ⟨c :: body, rfl,
      by rw [List.cons_append, closing?_unescaped, if_neg hc, if_neg hquote, hbody]⟩

theorem closing?_of_notMem (escaped : Bool) (h : quote ∉ w) :
    closing? quote escaped w = none := by
  by_contra hclosed
  obtain ⟨rest, hrest⟩ := Option.ne_none_iff_exists'.mp hclosed
  obtain ⟨body, rfl, -⟩ := exists_of_closing? hrest
  exact h (by simp)

theorem getLast?_of_closing? (h : closing? quote escaped form = some []) :
    form.getLast? = some quote := by
  obtain ⟨body, rfl, -⟩ := exists_of_closing? h
  exact List.getLast?_concat

/-! ## One token -/

theorem exists_of_afterBlock? (h : afterBlock? t = some rest) : ∃ body, t = body ++ rest := by
  fun_induction afterBlock? t with
  | case1 t =>
    cases h
    exact ⟨['*', '/'], rfl⟩
  | case2 c t _ ih =>
    obtain ⟨body, rfl⟩ := ih h
    exact ⟨c :: body, rfl⟩
  | case3 => cases h

theorem read?_quote (quote : Quote) (t : Text) :
    Token.read? (quote.char :: t) =
      (closing? quote.char false t).map (Token.read?.upTo .literal (quote.char :: t)) := by
  rw [← afterLiteral?_eq_closing?]
  cases quote <;> rfl

/-- What closes a literal is all that it takes to read it. -/
theorem read?_literal {quote : Quote} (h : closing? quote.char false form = some []) (t : Text) :
    Token.read? (quote.char :: form ++ t) = some (.literal (quote.char :: form), t) := by
  rw [List.cons_append, read?_quote, closing?_append_of_some h, List.nil_append]
  exact congrArg some (upTo_append .literal (quote.char :: form) t)

theorem read?_eq_some_cases {token : Token} (h : Token.read? (c :: t) = some (token, rest)) :
    (∃ (quote : Quote) (form : Text), closing? quote.char false form = some [] ∧
      c :: t = quote.char :: form ++ rest) ∨
    ∃ form, token = .comment (.char '/' :: form) ∧ c :: t = .char '/' :: form ++ rest := by
  by_cases hquote : ∃ quote : Quote, c = quote.char
  · obtain ⟨quote, rfl⟩ := hquote
    rw [read?_quote] at h
    obtain ⟨u, hu, he⟩ := Option.map_eq_some_iff.mp h
    obtain ⟨-, rfl⟩ := Prod.mk.inj he
    obtain ⟨body, rfl, hbody⟩ := exists_of_closing? hu
    exact Or.inl ⟨quote, body ++ [quote.char], hbody, by simp⟩
  · have hcomment (form u : Text)
        (he : Token.read?.upTo .comment (.char '/' :: form ++ u) u = (token, rest)) :
        token = .comment ('/' :: form) ∧ u = rest := by
      rw [upTo_append] at he
      obtain ⟨rfl, rfl⟩ := Prod.mk.inj he
      exact ⟨rfl, rfl⟩
    right
    unfold Token.read? at h
    split at h
    · next he => exact absurd ⟨.double, (List.cons.inj he).1⟩ hquote
    · next he => exact absurd ⟨.single, (List.cons.inj he).1⟩ hquote
    · next u he =>
      have hline : .char '/' :: .char '/' :: u =
          .char '/' :: (.char '/' :: u.takeWhile (· != .char '\n')) ++
            u.dropWhile (· != .char '\n') := by
        simp [List.takeWhile_append_dropWhile]
      rw [hline] at he h
      obtain ⟨htoken, rfl⟩ := hcomment _ _ (Option.some.inj h)
      exact ⟨_, htoken, he⟩
    · next u he =>
      obtain ⟨v, hv, hupTo⟩ := Option.map_eq_some_iff.mp h
      obtain ⟨body, rfl⟩ := exists_of_afterBlock? hv
      obtain ⟨htoken, rfl⟩ := hcomment ('*' :: body) v hupTo
      exact ⟨_, htoken, he⟩
    · cases h

/-! ## Token by token -/

/-- A statement about all scripts can be shown for the first token and what follows it, given that
it holds of everything that is no longer than what follows. -/
@[elab_as_elim]
theorem token_induction {motive : Text → Prop} (t : Text) (nil : motive [])
    (free : ∀ c t, Token.read? (c :: t) = none →
      (∀ u : Text, u.length ≤ t.length → motive u) → motive (c :: t))
    (literal : ∀ (quote : Quote) form t, closing? quote.char false form = some [] →
      (∀ u : Text, u.length ≤ t.length → motive u) → motive (quote.char :: form ++ t))
    (comment : ∀ form t,
      Token.read? (.char '/' :: form ++ t) = some (.comment (.char '/' :: form), t) →
      (∀ u : Text, u.length ≤ t.length → motive u) → motive (.char '/' :: form ++ t)) :
    motive t := by
  induction hn : t.length using Nat.strong_induction_on generalizing t with
  | h n ih =>
    subst hn
    cases t with
    | nil => exact nil
    | cons c t =>
      have hshorter (d : CodePoint) (form rest : Text) (he : c :: t = d :: form ++ rest) :
          ∀ u : Text, u.length ≤ rest.length → motive u := by
        intro u hu
        apply ih u.length _ u rfl
        have := congrArg List.length he
        simp only [List.length_cons, List.length_append, List.cons_append] at this ⊢
        omega
      cases hread : Token.read? (c :: t) with
      | none => exact free c t hread (hshorter c [] t rfl)
      | some result =>
        obtain ⟨token, rest⟩ := result
        rcases read?_eq_some_cases hread with ⟨quote, form, hform, he⟩ | ⟨form, rfl, he⟩
        · have hrest := hshorter _ _ _ he
          rw [he]
          exact literal quote form rest hform hrest
        · have hrest := hshorter _ _ _ he
          rw [he] at hread ⊢
          exact comment form rest hread hrest

theorem stripComments_literal {quote : Quote} (h : closing? quote.char false form = some [])
    (t : Text) :
    stripComments (quote.char :: form ++ t) = quote.char :: form ++ stripComments t :=
  stripComments_of_read (read?_literal h t)

theorem stripComments_comment
    (h : Token.read? (.char '/' :: form ++ t) = some (.comment (.char '/' :: form), t)) :
    stripComments (.char '/' :: form ++ t) =
      (.char '/' :: form).filter (· = .char '\n') ++ stripComments t :=
  stripComments_of_read h

end BuildChain.Settings
