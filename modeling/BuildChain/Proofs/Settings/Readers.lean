import BuildChain.Proofs.Settings.Arguments
import BuildChain.Proofs.Text.Positions

/-! # What the readers of include statements read

Each reader is described by the texts that it reads: the parts that such a text is put together
from, and what is read from them.
-/

namespace BuildChain.Settings

open Text

variable {before : Option CodePoint} {c d : CodePoint} {content rest t u v w x : Text}
  {values : List Text}

/-! ## Quotes -/

/-- Texts are equal if they agree before and after the first quote. -/
theorem eq_of_append_quote (hu : ∀ x ∈ u, isQuote x = false) (hw : ∀ x ∈ w, isQuote x = false)
    (hc : isQuote c = true) (hd : isQuote d = true) (h : u ++ c :: v = w ++ d :: t) :
    u = w ∧ c = d ∧ v = t := by
  have hfirst {w : Text} {d : CodePoint} {t : Text} (hw : ∀ x ∈ w, isQuote x = false)
      (hd : isQuote d = true) :
      (w ++ d :: t).takeWhile (!isQuote ·) = w ∧ (w ++ d :: t).dropWhile (!isQuote ·) = d :: t :=
    ⟨takeWhile_append_cons (by simpa using hw) (by simp [hd]),
      dropWhile_append_cons (by simpa using hw) (by simp [hd])⟩
  have hleft := hfirst (t := v) hu hc
  have hright := hfirst (t := t) hw hd
  rw [h] at hleft
  obtain ⟨rfl, rfl⟩ := List.cons.inj (hleft.2.symm.trans hright.2)
  exact ⟨hleft.1.symm.trans hright.1, rfl, rfl⟩

theorem looseLiteral?_eq_some_iff :
    looseLiteral? t = some (content, rest) ↔
      content ≠ [] ∧ (∀ x ∈ content, isQuote x = false) ∧
      ∃ c d, isQuote c = true ∧ isQuote d = true ∧ t = c :: (content ++ d :: rest) := by
  constructor
  · intro h
    cases t with
    | nil => cases h
    | cons c t =>
      rw [looseLiteral?] at h
      split at h
      · next hc =>
        split at h
        · next e content' d rest' hcontent hrest =>
          cases h
          have hd := List.head?_dropWhile_not (!isQuote ·) t
          rw [hrest] at hd
          refine ⟨by simp, ?_, c, d, hc, by simpa using hd, ?_⟩
          · intro x hx
            rw [← hcontent] at hx
            simpa using List.mem_takeWhile_imp hx
          · rw [← hcontent, ← hrest, List.takeWhile_append_dropWhile]
        · cases h
      · cases h
  · rintro ⟨hne, hcontent, c, d, hc, hd, rfl⟩
    exact looseLiteral?_text hc hd hne hcontent rest

theorem exists_of_comma? (h : comma? t = some u) :
    ∃ v w, (∀ c ∈ v, isBlank c = true) ∧ (∀ c ∈ w, isBlank c = true) ∧
      t = v ++ .char ',' :: (w ++ u) := by
  obtain ⟨u, hafter, rfl⟩ := Option.map_eq_some_iff.mp h
  refine ⟨t.takeWhile isBlank, u.takeWhile isBlank, ?_, ?_, ?_⟩
  · exact fun c hc => List.mem_takeWhile_imp hc
  · exact fun c hc => List.mem_takeWhile_imp hc
  · rw [List.takeWhile_append_dropWhile]
    have hskip : skipBlanks t = .char ',' :: u := eq_append_of_after? hafter
    rw [← hskip, List.takeWhile_append_dropWhile]

/-! ## Arguments -/

theorem infix_of_mem_arguments (h : v ∈ arguments t) : v <:+: t := by
  obtain ⟨u, c, w, rest, rfl, hread⟩ := exists_read_of_mem_occurrences h
  rw [argument] at hread
  split at hread
  · simp only [Option.bind_eq_bind, Option.bind_eq_some_iff, Option.pure_def, Option.some.injEq,
      Prod.mk.injEq] at hread
    obtain ⟨-, -, rfl, -⟩ := hread
    exact ((List.takeWhile_prefix _).isInfix.trans (List.suffix_cons c w).isInfix).trans
      (List.suffix_append u _).isInfix
  · cases hread

theorem arguments_of_not_quote (h : ∀ c ∈ t, isQuote c = false) : arguments t = [] :=
  (quiet_argument h).finds.occurrences

/-- Two quotes of one kind have an argument between them, or before the first of them. -/
theorem arguments_ne_nil (hc : isQuote c = true) : arguments (u ++ c :: (v ++ c :: w)) ≠ [] := by
  intro hnil
  have hnone := occurrences_eq_nil_iff.mp hnil u c _ rfl
  obtain ⟨v', w', hsplit, hv'⟩ :=
    List.eq_append_cons_of_mem (show c ∈ v ++ c :: w by simp)
  rw [hsplit, argument_text hc hv'] at hnone
  cases hnone

/-- More text in front of the arguments does not hide them all. -/
theorem arguments_eq_nil_of_suffix (h : v <:+ t) (ht : arguments t = []) : arguments v = [] := by
  obtain ⟨u, rfl⟩ := h
  refine occurrences_eq_nil_iff.mpr ?_
  rintro w c x rfl
  exact occurrences_eq_nil_iff.mp ht (u ++ w) c x (List.append_assoc u w _).symm

/-! ## Statements -/

/-- The word that include statements start with, and a text after it. -/
def withKeyword (t : Text) : Text :=
  ("include" : Text) ++ t

theorem withKeyword_eq_cons (t : Text) : withKeyword t = .char 'i' :: (("nclude" : Text) ++ t) :=
  rfl

theorem withKeyword_append (t u : Text) : withKeyword t ++ u = withKeyword (t ++ u) :=
  List.append_assoc _ t u

theorem call_append (t : Text) : ("include(" : Text) ++ t = withKeyword ('(' :: t) :=
  List.append_assoc ("include" : Text) ['('] t

theorem command_append (t : Text) : ("include " : Text) ++ t = withKeyword (' ' :: t) :=
  List.append_assoc ("include" : Text) [' '] t

theorem mem_withKeyword_iff (hc : c ∉ ("include" : Text)) : c ∈ withKeyword t ↔ c ∈ t :=
  List.mem_append.trans (or_iff_right hc)

theorem after?_keyword_eq_some_iff : after? "include" t = some u ↔ t = withKeyword u := by
  constructor
  · exact eq_append_of_after?
  · rintro rfl
    exact after?_append _ u

theorem includeCall_eq_some_iff :
    includeCall before t = some (values, rest) ↔
      atWordStart before = true ∧ ∃ blanks inner, (∀ c ∈ blanks, isBlank c = true) ∧
        .char ')' ∉ inner ∧ t = withKeyword (blanks ++ .char '(' :: (inner ++ .char ')' :: rest)) ∧
        values = arguments inner := by
  simp only [includeCall, Option.bind_eq_bind, Option.bind_eq_some_iff, Option.guard_eq_some',
    Option.pure_def, Option.some.injEq, Prod.mk.injEq]
  constructor
  · rintro ⟨-, hb, u, hu, inner, hinner, rest', hrest, rfl, rfl⟩
    have hskip : skipBlanks u = .char '(' :: inner := eq_append_of_after? hinner
    have hdrop : inner.dropWhile (· != .char ')') = .char ')' :: rest' := eq_append_of_after? hrest
    refine ⟨hb, u.takeWhile isBlank, inner.takeWhile (· != ')'), ?_, ?_, ?_, rfl⟩
    · exact fun c hc => List.mem_takeWhile_imp hc
    · intro hmem
      have := List.mem_takeWhile_imp hmem
      simp at this
    · rw [← hdrop, List.takeWhile_append_dropWhile, ← hskip, List.takeWhile_append_dropWhile]
      exact after?_keyword_eq_some_iff.mp hu
  · rintro ⟨hb, blanks, inner, hblanks, hinner, rfl, rfl⟩
    have hkeep : ∀ c ∈ inner, (c != ')') = true :=
      fun c hc => bne_iff_ne.mpr fun he => hinner (he ▸ hc)
    refine ⟨(), hb, blanks ++ .char '(' :: (inner ++ .char ')' :: rest), ?_,
      inner ++ .char ')' :: rest, ?_, rest,
      ?_, ?_, rfl⟩
    · exact after?_keyword_eq_some_iff.mpr rfl
    · rw [skipBlanks_append hblanks, skipBlanks_cons (by decide)]
      exact after?_append ['('] _
    · rw [dropWhile_append_cons hkeep (by decide)]
      exact after?_append [')'] _
    · rw [takeWhile_append_cons hkeep (by decide)]

theorem suffix_of_afterNext? (h : afterNext? t = some u) : u <:+ t := by
  obtain ⟨v, hcomma, h⟩ := Option.bind_eq_some_iff.mp h
  obtain ⟨⟨content, rest⟩, hliteral, rfl⟩ := Option.map_eq_some_iff.mp h
  obtain ⟨-, -, c, d, -, -, rfl⟩ := looseLiteral?_eq_some_iff.mp hliteral
  obtain ⟨w, w', -, -, rfl⟩ := exists_of_comma? hcomma
  exact ⟨w ++ .char ',' :: (w' ++ c :: (content ++ [d])), by simp⟩

theorem suffix_afterLiterals (t : Text) : afterLiterals t <:+ t := by
  fun_induction afterLiterals t with
  | case1 => exact List.suffix_rfl
  | case2 t rest h _ ih => exact ih.trans (suffix_of_afterNext? h)

theorem includeCommand_eq_some_iff :
    includeCommand before t = some (values, rest) ↔
      atWordStart before = true ∧ ∃ blanks passed content u, blanks ≠ [] ∧
        (∀ c ∈ blanks, isBlank c = true) ∧ t = withKeyword (blanks ++ (passed ++ rest)) ∧
        looseLiteral? (passed ++ rest) = some (content, u) ∧ rest = afterLiterals u ∧
        values = arguments passed := by
  simp only [includeCommand, Option.bind_eq_bind, Option.bind_eq_some_iff, Option.guard_eq_some',
    Option.pure_def, Option.some.injEq, Prod.mk.injEq]
  constructor
  · rintro ⟨-, hb, u, hu, -, hblank, ⟨content, v⟩, hliteral, rfl, rfl⟩
    have hsuffix : afterLiterals v <:+ skipBlanks u := by
      obtain ⟨-, -, c, d, -, -, hlist⟩ := looseLiteral?_eq_some_iff.mp hliteral
      rw [hlist]
      exact (suffix_afterLiterals v).trans ⟨c :: (content ++ [d]), by simp⟩
    obtain ⟨passed, hpassed⟩ := hsuffix
    refine ⟨hb, u.takeWhile isBlank, passed, content, v, ?_, ?_, ?_, ?_, rfl, ?_⟩
    · cases u with
      | nil => simp at hblank
      | cons c u =>
        have hc : isBlank c = true := by simpa using hblank
        rw [List.takeWhile_cons_of_pos hc]
        exact List.cons_ne_nil c _
    · exact fun c hc => List.mem_takeWhile_imp hc
    · rw [hpassed, List.takeWhile_append_dropWhile]
      exact after?_keyword_eq_some_iff.mp hu
    · rw [hpassed, hliteral]
    · rw [← hpassed]
      simp
  · rintro ⟨hb, blanks, passed, content, u, hne, hblanks, rfl, hliteral, rfl, rfl⟩
    obtain ⟨-, -, c, d, hc, -, hlist⟩ := looseLiteral?_eq_some_iff.mp hliteral
    have hskip : skipBlanks (blanks ++ (passed ++ afterLiterals u)) =
        passed ++ afterLiterals u := by
      have hblank : isBlank c = false := by
        by_contra hblank
        simp [isQuote_of_isBlank (by simpa using hblank)] at hc
      rw [skipBlanks_append hblanks, hlist, skipBlanks_cons hblank]
    refine ⟨(), hb, blanks ++ (passed ++ afterLiterals u), ?_, (), ?_, (content, u), ?_, ?_, rfl⟩
    · exact after?_keyword_eq_some_iff.mpr rfl
    · obtain ⟨b, blanks, rfl⟩ := List.exists_cons_of_ne_nil hne
      simpa using hblanks b (.head _)
    · rw [hskip, hliteral]
    · rw [hskip]
      simp

end BuildChain.Settings
