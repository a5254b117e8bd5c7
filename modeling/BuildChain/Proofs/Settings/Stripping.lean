import BuildChain.Proofs.Settings.Document
import BuildChain.Proofs.Text.Blank
import BuildChain.Proofs.Text.Scan

/-! # Documents without their comments

Line endings are folded and comments are taken out of a document chunk by chunk. Statements stay
as they are, and of what stands between them only blanks are left.
-/

namespace BuildChain.Settings

open Text

/-! ## Single tokens -/

section Token

variable {c : CodePoint} {w t form : Text}

theorem stripComments_cons (h : Token.read? (c :: t) = none) :
    stripComments (c :: t) = c :: stripComments t := by
  unfold stripComments tokenMarks marks
  simp only [marksFrom, h, List.flatMap_cons, strippedMark, List.cons_append, List.nil_append]
  rw [marksFrom_const]

theorem stripComments_append_of_quiet (h : ∀ c ∈ w, ∀ t, Token.read? (c :: t) = none) :
    stripComments (w ++ t) = w ++ stripComments t := by
  induction w with
  | nil => rfl
  | cons c w ih =>
    rw [List.forall_mem_cons] at h
    rw [List.cons_append, stripComments_cons (h.1 _), ih h.2, List.cons_append]

theorem stripComments_of_read {token : Token}
    (h : Token.read? (c :: form ++ t) = some (token, t)) :
    stripComments (c :: form ++ t) = token.stripped ++ stripComments t := by
  unfold stripComments tokenMarks marks
  have hinside : (List.replicate form.length Mark.inside).flatMap strippedMark = [] := by
    simp [strippedMark]
  rw [marksFrom_of_read h, List.flatMap_cons, List.flatMap_append, hinside, List.nil_append,
    marksFrom_const]
  rfl

theorem upTo_append (kind : Text → Token) (form rest : Text) :
    Token.read?.upTo kind (form ++ rest) rest = (kind form, rest) := by
  simp [Token.read?.upTo]

theorem afterLiteral?_cons {quote : CodePoint} (hc : c ≠ '\\') :
    afterLiteral? quote (c :: t) = if c = quote then some t else afterLiteral? quote t := by
  rw [afterLiteral?]
  · intro he
    exact absurd he hc
  · intro d u he
    exact absurd he hc

theorem afterLiteral?_append (quote : Quote) {p : Text} (h : ∀ c ∈ p, isBreak c = false) :
    afterLiteral? quote.char (p ++ quote.char :: t) = some t := by
  induction p with
  | nil =>
    have hq : quote.char ≠ '\\' := by cases quote <;> decide
    rw [List.nil_append, afterLiteral?_cons hq, if_pos rfl]
  | cons c p ih =>
    rw [List.forall_mem_cons] at h
    have hc : c ≠ '\\' := by rintro rfl; exact absurd h.1 (by decide)
    have hq : c ≠ quote.char := by
      rintro rfl
      cases quote <;> exact absurd h.1 (by decide)
    rw [List.cons_append, afterLiteral?_cons hc, if_neg hq, ih h.2]

theorem afterBlock?_append {p : Text} (h : ¬ [.char '*', .char '/'] <:+: p) :
    afterBlock? (p ++ .char '*' :: .char '/' :: t) = some t := by
  induction p with
  | nil => rfl
  | cons c p ih =>
    have hp : ¬ [.char '*', .char '/'] <:+: p :=
      fun hi => h (hi.trans (List.suffix_cons c p).isInfix)
    rw [List.cons_append, afterBlock?, ih hp]
    rintro u rfl hu
    cases p with
    | nil => simp at hu
    | cons d p =>
      obtain ⟨rfl, -⟩ := List.cons.inj hu
      exact h (List.prefix_append [.char '*', .char '/'] p).isInfix

theorem read?_quoted (quote : Quote) {p : Text} (h : ∀ c ∈ p, isBreak c = false) :
    Token.read? (quote.char :: (p ++ [quote.char]) ++ t) =
      some (.literal (quote.char :: p ++ [quote.char]), t) := by
  have hrest : afterLiteral? quote.char (p ++ [quote.char] ++ t) = some t := by
    rw [List.append_assoc]
    exact afterLiteral?_append quote h
  have hread : Token.read? (quote.char :: (p ++ [quote.char] ++ t)) =
      (afterLiteral? quote.char (p ++ [quote.char] ++ t)).map
        (Token.read?.upTo .literal (quote.char :: (p ++ [quote.char] ++ t))) := by
    cases quote <;> rfl
  rw [List.cons_append, hread, hrest, ← List.cons_append]
  exact congrArg some (upTo_append .literal (quote.char :: (p ++ [quote.char])) t)

theorem read?_block {p : Text} (h : ¬ [.char '*', .char '/'] <:+: p) :
    Token.read? (.char '/' :: (.char '*' :: p ++ ([.char '*', .char '/'] : Text)) ++ t) =
      some (.comment (.char '/' :: (.char '*' :: p ++ ([.char '*', .char '/'] : Text))), t) := by
  have hrest : afterBlock? (p ++ ([.char '*', .char '/'] : Text) ++ t) = some t := by
    rw [List.append_assoc]
    exact afterBlock?_append h
  rw [List.cons_append, List.cons_append, List.cons_append, Token.read?, hrest]
  exact congrArg some
    (upTo_append .comment ('/' :: '*' :: (p ++ [CodePoint.char '*', CodePoint.char '/'])) t)

theorem read?_line {p : Text} (h : .char '\n' ∉ p) :
    Token.read? (.char '/' :: (.char '/' :: p) ++ .char '\n' :: t) =
      some (.comment (.char '/' :: (.char '/' :: p)), .char '\n' :: t) := by
  have hp : ∀ c ∈ p, (c != '\n') = true :=
    fun c hc => bne_iff_ne.mpr fun he => h (he ▸ hc)
  have hrest : (p ++ .char '\n' :: t).dropWhile (· != .char '\n') = .char '\n' :: t := by
    rw [List.dropWhile_append_of_pos hp]
    rfl
  rw [List.cons_append, List.cons_append, Token.read?, hrest]
  exact congrArg some (upTo_append .comment ('/' :: '/' :: p) ('\n' :: t))

theorem read?_eq_none (hq : isQuote c = false) (hc : c ≠ '/') : Token.read? (c :: t) = none := by
  unfold Token.read?
  split <;> simp_all [isQuote]

end Token

/-! ## Chunks -/

/-- The texts of the code in an item. -/
def Item.codes : Item → List Text
  | lineComment _ => []
  | blockComment _ => ["\n"]
  | call _ _ => ["include(", ",", ")", "\n"]
  | command _ => ["include ", ",", "\n"]
  | rootName _ => ["rootProject.name = ", "\n"]
  | directory _ _ => ["project(", ").projectDir = file(", ")", "\n"]

theorem eq_of_code_mem_arguments {w : Text} {quote : Quote} {list : ArgumentList}
    (h : .code w ∈ list.chunks quote) : w = [','] := by
  obtain ⟨-, h⟩ : (∃ further, further ∈ list.further) ∧ w = [','] := by
    simpa [ArgumentList.chunks, Further.chunks] using h
  exact h

theorem eq_of_code_mem_trailing {w : Text} {trailing : Option (List Filler)}
    (h : .code w ∈ trailingChunks trailing) : w = [','] := by
  cases trailing with
  | none => simp [trailingChunks] at h
  | some gap => simpa [trailingChunks] using h

theorem Item.mem_codes {item : Item} {w : Text} (h : .code w ∈ item.chunks) : w ∈ item.codes := by
  cases item with
  | call list trailing =>
    simp only [chunks, List.mem_append, List.mem_cons, List.not_mem_nil, or_false] at h
    rcases h with (h | h | h) | h | h
    · simp_all [codes]
    · simp [codes, eq_of_code_mem_arguments h]
    · simp [codes, eq_of_code_mem_trailing h]
    · simp_all [codes]
    · simp_all [codes]
  | command list =>
    simp only [chunks, List.mem_append, List.mem_cons, List.not_mem_nil, or_false] at h
    rcases h with (h | h) | h
    · simp_all [codes]
    · simp [codes, eq_of_code_mem_arguments h]
    · simp_all [codes]
  | lineComment => simp [chunks] at h
  | _ => simpa [chunks, codes] using h

/-- Code that holds no quote and cannot belong to a comment or a line ending. -/
def IsCode (w : Text) : Prop :=
  w.any (fun c => isQuote c || c == '/' || c == '\r') = false

instance (w : Text) : Decidable (IsCode w) :=
  inferInstanceAs (Decidable (_ = false))

theorem IsCode.of_mem {w : Text} {c : CodePoint} (h : IsCode w) (hc : c ∈ w) :
    isQuote c = false ∧ c ≠ '/' ∧ c ≠ '\r' := by
  have hany := List.any_eq_false.mp h c hc
  simp_all

theorem IsCode.strip {w : Text} (h : IsCode w) (t : Text) :
    stripComments (w ++ t) = w ++ stripComments t := by
  apply stripComments_append_of_quiet
  intro c hc t
  exact read?_eq_none (h.of_mem hc).1 (h.of_mem hc).2.1

theorem Item.isCode_of_mem_codes {item : Item} : ∀ w ∈ item.codes, IsCode w := by
  cases item <;> simp only [codes] <;> decide

theorem Quote.isQuote_char (quote : Quote) : isQuote quote.char = true := by
  cases quote <;> rfl

theorem PlainText.not_isBreak (content : PlainText) : ∀ c ∈ content.text, isBreak c = false := by
  simpa using List.any_eq_false.mp content.not_break

theorem notMem_quoted {quote : Quote} {content : PlainText} {c : CodePoint} (hc : isBreak c = true)
    (hq : isQuote c = false) : c ∉ quote.char :: (content.text ++ [quote.char]) := by
  intro hm
  simp only [List.mem_cons, List.mem_append, List.not_mem_nil, or_false] at hm
  rcases hm with rfl | hm | rfl
  · simp [quote.isQuote_char] at hq
  · simp [content.not_isBreak c hm] at hc
  · simp [quote.isQuote_char] at hq

/-- What is left of a filler. -/
def Filler.bare : Filler → Text
  | space => " "
  | newline => "\n"
  | block content => (foldNewlines content.text).filter (· = '\n')
  | line _ => "\n"

def Chunk.bare : Chunk → Text
  | code t => t
  | quoted quote content => (quoted quote content).text
  | filler f => f.bare

/-- The statements of a document, with nothing but blanks between them. -/
def Document.bare (doc : Document) : Text :=
  doc.chunks.flatMap Chunk.bare

theorem Filler.strip (f : Filler) (t : Text) :
    stripComments (foldNewlines (f.text ++ t)) = f.bare ++ stripComments (foldNewlines t) := by
  cases f with
  | space => exact stripComments_cons (read?_eq_none (by decide) (by decide))
  | newline => exact stripComments_cons (read?_eq_none (by decide) (by decide))
  | block content =>
    have htext : (block content).text =
        .char '/' :: (.char '*' :: content.text ++ ([.char '*', .char '/'] : Text)) := by
      simp [Filler.text]
    have hfold : ¬ [.char '*', .char '/'] <:+: foldNewlines content.text :=
      fun h => content.not_infix (infix_of_foldNewlines (by decide) (by decide) h)
    rw [htext, foldNewlines_block, stripComments_of_read (read?_block hfold)]
    simp [Token.stripped, Filler.bare]
  | line content =>
    have htext : (line content).text =
        (.char '/' :: (.char '/' :: content.text)) ++ [CodePoint.char '\n'] := by
      simp [Filler.text]
    have hreturn :
        .char '\r' ∉ (.char '/' :: (.char '/' :: content.text)) ++ [CodePoint.char '\n'] := by
      simp [content.return_notMem]
    have hstripped : (Token.comment (.char '/' :: (.char '/' :: content.text))).stripped = [] := by
      have hnone : ∀ c ∈ content.text, ¬ c = .char '\n' :=
        fun c hc he => content.newline_notMem (he ▸ hc)
      simpa [Token.stripped] using hnone
    rw [htext, foldNewlines_append hreturn, List.append_assoc]
    refine (stripComments_of_read (read?_line content.newline_notMem)).trans ?_
    rw [hstripped, stripComments_cons (read?_eq_none (by decide) (by decide))]
    rfl

theorem Chunk.strip {chunk : Chunk} (h : ∀ w, chunk = .code w → IsCode w) (t : Text) :
    stripComments (foldNewlines (chunk.text ++ t)) =
      chunk.bare ++ stripComments (foldNewlines t) := by
  cases chunk with
  | code w =>
    have h := h w rfl
    have hreturn : .char '\r' ∉ w := fun hm => (h.of_mem hm).2.2 rfl
    rw [Chunk.text, foldNewlines_append hreturn]
    exact h.strip (foldNewlines t)
  | quoted quote content =>
    have hreturn : .char '\r' ∉ quote.char :: (content.text ++ [quote.char]) :=
      notMem_quoted (by decide) (by decide)
    rw [Chunk.text, List.cons_append, foldNewlines_append hreturn,
      stripComments_of_read (read?_quoted quote content.not_isBreak)]
    rfl
  | filler f => exact f.strip t

theorem strip_chunks {chunks : List Chunk} (h : ∀ w, .code w ∈ chunks → IsCode w) :
    stripComments (foldNewlines (chunks.flatMap Chunk.text)) = chunks.flatMap Chunk.bare := by
  induction chunks with
  | nil => rfl
  | cons chunk chunks ih =>
    rw [List.flatMap_cons, Chunk.strip, List.flatMap_cons, ih]
    · exact fun w hw => h w (.tail _ hw)
    · rintro w rfl
      exact h w (.head _)

theorem Document.strip (doc : Document) : stripComments (foldNewlines doc.text) = doc.bare := by
  refine strip_chunks fun w hw => ?_
  obtain ⟨item, -, hw⟩ := List.mem_flatMap.mp hw
  exact Item.isCode_of_mem_codes w (Item.mem_codes hw)

end BuildChain.Settings
