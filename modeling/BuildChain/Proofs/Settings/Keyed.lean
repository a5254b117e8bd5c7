import Mathlib.Data.Option.Basic
import BuildChain.Proofs.Settings.Stripping

/-! # Keyed statements

Each form of statement starts with a key, after which something other than a quote has to come
next. So none starts in a quoted text, in blanks, or in code that holds no part of the key.
-/

namespace BuildChain.Settings

open Text

variable {α : Type} {read : Reader α} {before : Option CodePoint} {c : CodePoint}
  {key t u v w : Text}

/-! ## Readers with a key -/

/-- Every form that is read starts with the key, and the first break in it is no quote. -/
structure Keyed (key : Text) (read : Reader α) : Prop where
  key_not_blank : ∃ c ∈ key.head?, isBlank c = false
  key_prefix : ∀ {before t r}, read before t = some r → key <+: t
  break_not_quote : ∀ {before t r}, read before t = some r →
    ∃ c ∈ t.find? isBreak, isQuote c = false

/-- No occurrence of the key starts in the code `w`, whatever follows it. -/
def Avoids (key w : Text) : Prop :=
  ∀ v ∈ w.tails, v ≠ [] → ¬ v <+: key ∧ ¬ key <+: v

instance (key w : Text) : Decidable (Avoids key w) :=
  inferInstanceAs (Decidable (∀ v ∈ w.tails, v ≠ [] → ¬ v <+: key ∧ ¬ key <+: v))

theorem isQuote_of_isBlank (h : isBlank c = true) : isQuote c = false := by
  by_contra hq
  simp only [isQuote, Bool.not_eq_false, Bool.or_eq_true, beq_iff_eq] at hq
  rcases hq with rfl | rfl <;> exact absurd h (by decide)

theorem isBreak_of_isBlank (h : isBlank c = true) : isBreak c = true := by
  simp [isBreak, h]

theorem isBreak_of_isQuote (h : isQuote c = true) : isBreak c = true := by
  simp [isBreak, h]

theorem PlainText.eq_false_of_isBreak {p : CodePoint → Bool}
    (hp : ∀ c, p c = true → isBreak c = true)
    (content : PlainText) : ∀ c ∈ content.text, p c = false := by
  intro c hc
  by_contra h
  have := hp c (by simpa using h)
  simp [content.not_isBreak c hc] at this

theorem PlainText.not_isQuote (content : PlainText) : ∀ c ∈ content.text, isQuote c = false :=
  content.eq_false_of_isBreak fun _ => isBreak_of_isQuote

theorem PlainText.not_isBlank (content : PlainText) : ∀ c ∈ content.text, isBlank c = false :=
  content.eq_false_of_isBreak fun _ => isBreak_of_isBlank

theorem find?_isBreak (hw : w.find? isBreak = none) (hc : isBreak c = true) :
    (w ++ c :: t).find? isBreak = some c := by
  rw [List.find?_append, hw, List.find?_cons_of_pos hc]
  rfl

theorem Filler.isBlank_bare (f : Filler) : ∀ c ∈ f.bare, isBlank c = true := by
  cases f with
  | space => exact List.all_eq_true.mp (by decide)
  | newline => exact List.all_eq_true.mp (by decide)
  | line => exact List.all_eq_true.mp (show [.char '\n'].all isBlank = true by decide)
  | block content =>
    intro c hc
    obtain ⟨-, hc⟩ := List.mem_filter.mp hc
    obtain rfl : c = '\n' := by simpa using hc
    decide

namespace Keyed

theorem quiet_of_avoids (h : Keyed key read) (hw : Avoids key w) : Quiet read w := by
  intro v hv hne before t
  by_contra hread
  obtain ⟨r, hread⟩ := Option.ne_none_iff_exists'.mp hread
  obtain ⟨hvk, hkv⟩ := hw v ((List.mem_tails _ _).mpr hv) hne
  rcases List.prefix_or_prefix_of_prefix (h.key_prefix hread) (List.prefix_append v t) with hp | hp
  · exact hkv hp
  · exact hvk hp

theorem quiet_of_blank (h : Keyed key read) (hw : ∀ c ∈ w, isBlank c = true) : Quiet read w := by
  intro v hv hne before t
  by_contra hread
  obtain ⟨r, hread⟩ := Option.ne_none_iff_exists'.mp hread
  obtain ⟨c, hc, hblank⟩ := h.key_not_blank
  obtain ⟨d, v, rfl⟩ := List.exists_cons_of_ne_nil hne
  obtain ⟨key', rfl⟩ := List.head?_eq_some_iff.mp hc
  obtain ⟨rfl, -⟩ := List.cons_prefix_cons.mp (h.key_prefix hread)
  have := hw c (hv.subset (by simp))
  simp [this] at hblank

theorem quiet_quoted (h : Keyed key read) (quote : Quote) (content : PlainText) :
    Quiet read (quote.char :: (content.text ++ [quote.char])) := by
  have hquote := quote.isQuote_char
  -- whatever precedes it in the literal, the first break is the quote that closes it
  have hnone {w : Text} (hw : w <:+ content.text) (before : Option CodePoint) (t : Text) :
      read before (w ++ quote.char :: t) = none := by
    have hw : w.find? isBreak = none := by
      rw [List.find?_eq_none]
      intro c hc
      simp [content.not_isBreak c (hw.subset hc)]
    by_contra hread
    obtain ⟨r, hread⟩ := Option.ne_none_iff_exists'.mp hread
    obtain ⟨c, hc, hcq⟩ := h.break_not_quote hread
    rw [find?_isBreak hw (isBreak_of_isQuote hquote), Option.mem_some_iff] at hc
    rw [hc, hcq] at hquote
    exact absurd hquote (by decide)
  refine .cons (fun before t => hnone List.nil_suffix before _) ?_
  intro v hv hne before t
  rcases List.suffix_concat_iff.mp hv with rfl | ⟨w, rfl, hw⟩
  · exact absurd rfl hne
  · rw [List.append_assoc]
    exact hnone hw before t

/-- A text without the key is quiet if a character follows that the key does not have. -/
theorem quiet_append_cons (h : Keyed key read) (hc : c ∉ key) (ht : ¬ key <:+: t)
    (hw : Quiet read (c :: w)) : Quiet read (t ++ c :: w) := by
  induction t with
  | nil => exact hw
  | cons d t ih =>
    refine .cons (fun before u => ?_) (ih fun ht' => ht (ht'.trans (List.suffix_cons d t).isInfix))
    by_contra hread
    obtain ⟨r, hread⟩ := Option.ne_none_iff_exists'.mp hread
    have hkey : key <+: d :: t ++ c :: (w ++ u) := by simpa using h.key_prefix hread
    rcases List.prefix_or_prefix_of_prefix hkey (List.prefix_append (d :: t) _) with hp | ⟨v, rfl⟩
    · exact ht hp.isInfix
    · cases v with
      | nil => exact ht (by simp)
      | cons e v =>
        obtain ⟨rfl, -⟩ := List.cons_prefix_cons.mp ((List.prefix_append_right_inj _).mp hkey)
        exact hc (by simp)

theorem quiet_chunk (h : Keyed key read) {chunk : Chunk}
    (hcode : ∀ w, chunk = .code w → Avoids key w) : Quiet read chunk.bare := by
  cases chunk with
  | code w => exact h.quiet_of_avoids (hcode w rfl)
  | quoted quote content => exact h.quiet_quoted quote content
  | filler f => exact h.quiet_of_blank f.isBlank_bare

theorem quiet_chunks (h : Keyed key read) {chunks : List Chunk}
    (hcode : ∀ w, .code w ∈ chunks → Avoids key w) : Quiet read (chunks.flatMap Chunk.bare) := by
  refine .flatMap fun chunk hchunk => h.quiet_chunk ?_
  rintro w rfl
  exact hcode w hchunk

end Keyed

/-! ## The forms -/

/-- Blanks and a character that is no quote begin with a break that is no quote. -/
theorem break_of_skipBlanks (hc : isBreak c = true) (hq : isQuote c = false)
    (h : after? [c] (skipBlanks t) = some u) :
    ∃ d v, t = d :: v ∧ isBreak d = true ∧ isQuote d = false := by
  cases t with
  | nil => simp [after?] at h
  | cons d v =>
    refine ⟨d, v, rfl, ?_⟩
    by_cases hd : isBlank d = true
    · exact ⟨isBreak_of_isBlank hd, isQuote_of_isBlank hd⟩
    · rw [skipBlanks_cons (by simpa using hd)] at h
      obtain ⟨rfl, -⟩ := List.cons.inj (eq_append_of_after? h)
      exact ⟨hc, hq⟩

theorem keyed_of_after? (hne : ∃ c ∈ key.head?, isBlank c = false)
    (hkey : key.find? isBreak = none)
    (h : ∀ {before t r}, read before t = some r → ∃ u, after? key t = some u ∧
      ∃ d v, u = d :: v ∧ isBreak d = true ∧ isQuote d = false) : Keyed key read := by
  refine ⟨hne, fun hread => ?_, fun hread => ?_⟩
  · obtain ⟨u, hu, -⟩ := h hread
    rw [eq_append_of_after? hu]
    exact List.prefix_append key u
  · obtain ⟨u, hu, d, v, rfl, hd, hq⟩ := h hread
    rw [eq_append_of_after? hu]
    exact ⟨d, find?_isBreak hkey hd, hq⟩

theorem keyed_includeCall : Keyed "include" includeCall := by
  refine keyed_of_after? ⟨'i', rfl, by decide⟩ (by decide) fun {before t r} hread => ?_
  simp only [includeCall, Option.bind_eq_bind, Option.bind_eq_some_iff] at hread
  obtain ⟨-, -, u, hu, inner, hinner, -⟩ := hread
  exact ⟨u, hu, break_of_skipBlanks (by decide) (by decide) hinner⟩

theorem keyed_includeCommand : Keyed "include" includeCommand := by
  refine keyed_of_after? ⟨'i', rfl, by decide⟩ (by decide) fun {before t r} hread => ?_
  simp only [includeCommand, Option.bind_eq_bind, Option.bind_eq_some_iff,
    Option.guard_eq_some'] at hread
  obtain ⟨-, -, u, hu, -, hblank, -⟩ := hread
  refine ⟨u, hu, ?_⟩
  cases u with
  | nil => simp at hblank
  | cons d v =>
    have hd : isBlank d = true := by simpa using hblank
    exact ⟨d, v, rfl, isBreak_of_isBlank hd, isQuote_of_isBlank hd⟩

theorem keyed_rootNameStatement : Keyed "rootProject.name" rootNameStatement := by
  refine keyed_of_after? ⟨'r', rfl, by decide⟩ (by decide) fun {before t r} hread => ?_
  simp only [rootNameStatement, Option.bind_eq_bind, Option.bind_eq_some_iff] at hread
  obtain ⟨u, hu, value, hvalue, -⟩ := hread
  exact ⟨u, hu, break_of_skipBlanks (by decide) (by decide) hvalue⟩

theorem keyed_directoryStatement : Keyed "project(" directoryStatement := by
  have hstart {before t r} (hread : directoryStatement before t = some r) :
      ∃ u, t = ("project(" : Text) ++ u := by
    simp only [directoryStatement, Option.bind_eq_bind, Option.bind_eq_some_iff] at hread
    obtain ⟨u, hu, -⟩ := hread
    exact ⟨u, eq_append_of_after? hu⟩
  refine ⟨⟨'p', rfl, by decide⟩, fun hread => ?_, fun hread => ?_⟩
  · obtain ⟨u, rfl⟩ := hstart hread
    exact List.prefix_append _ u
  · obtain ⟨u, rfl⟩ := hstart hread
    have hfind :=
      find?_isBreak (w := ("project" : Text)) (c := '(') (t := u) (by decide) (by decide)
    exact ⟨'(', hfind, by decide⟩

end BuildChain.Settings
