import Mathlib.Data.List.Infix
import BuildChain.Proofs.Text.Split
import BuildChain.Script.Line

/-! # Literals of a script

A literal ends at the next double quote. So the double quotes of an expression part the texts in
its literals from what stands around them, and a list is read back from its expression if and only
if none of its texts holds a double quote.
-/

namespace BuildChain.Script

/-- What stands before, in and after the literals of an expression, by turns. -/
def quoteParts (expression : Text) : List Text :=
  Text.split (· == '"') expression

/-- The separator of two literals. -/
def comma : Text :=
  ", "

/-- The texts of a list, given the parts of its expression from the first text on. -/
def listed? : List Text → Option (List Text)
  | t :: after :: parts =>
    if after = comma then (listed? parts).map (t :: ·)
    else if after = ")" ∧ parts = [] then some [t]
    else none
  | _ => none

/-- The texts of a list, read from its expression. -/
def listOf? (expression : Text) : Option (List Text) :=
  if expression = listOf [] then some []
  else
    match quoteParts expression with
    | [] => none
    | before :: parts => if before = "listOf(" then listed? parts else none

/-- The separator of two texts: a comma with the double quotes around it. -/
def between : Text :=
  .char '"' :: (comma ++ [CodePoint.char '"'])

/-- The text holds neither a double quote nor a newline, so a literal on one line can show it. -/
def Quotable (t : Text) : Prop :=
  .char '"' ∉ t ∧ .char '\n' ∉ t

instance (t : Text) : Decidable (Quotable t) :=
  inferInstanceAs (Decidable (.char '"' ∉ t ∧ .char '\n' ∉ t))

variable {t u front back line : Text} {ts us parts : List Text}

theorem listOf_cons (t : Text) (ts : List Text) :
    listOf (t :: ts) =
      "listOf(" ++ literal t ++ ts.flatMap (fun u => comma ++ literal u) ++ ")" := by
  change ("listOf(" : Text) ++ Text.join comma ((t :: ts).map literal) ++ (")" : Text) = _
  rw [List.map_cons, Text.join_cons_eq, List.flatMap_map, ← List.append_assoc]

theorem quoteParts_append_literal (ht : .char '"' ∉ t) (hu : .char '"' ∉ u) (rest : Text) :
    quoteParts (t ++ literal u ++ rest) = t :: u :: quoteParts rest := by
  have hsplit : t ++ literal u ++ rest = t ++ .char '"' :: (u ++ .char '"' :: rest) := by
    simp [literal]
  unfold quoteParts
  rw [hsplit, Text.split_append_cons_of_notMem ht, Text.split_append_cons_of_notMem hu]

/-- The text of the only literal in a line with the given texts around it. -/
def quoted? (front back line : Text) : Option Text :=
  match quoteParts line with
  | [before, t, after] => if before = front ∧ after = back then some t else none
  | _ => none

theorem quoted?_eq_some_iff (hf : .char '"' ∉ front) (hb : .char '"' ∉ back) :
    quoted? front back line = some t ↔ line = front ++ literal t ++ back ∧ .char '"' ∉ t := by
  constructor
  · intro h
    unfold quoted? at h
    split at h
    · next before u after hparts =>
      have hquote : .char '"' ∉ u := by
        intro hmem
        have hu : u ∈ quoteParts line := by simp [hparts]
        simpa using (Text.mem_split hu _ hmem).2
      have hjoin : Text.join ['"'] (quoteParts line) = line := Text.join_split line
      split at h
      · next hparts' =>
        obtain ⟨rfl, rfl⟩ := hparts'
        obtain rfl := Option.some.inj h
        refine ⟨?_, hquote⟩
        rw [← hjoin, hparts, Text.join_cons]
        simp [literal]
      · cases h
    · cases h
  · rintro ⟨rfl, ht⟩
    have hparts : quoteParts (front ++ literal t ++ back) = [front, t, back] := by
      rw [quoteParts_append_literal hf ht, quoteParts, Text.split_of_notMem hb]
    simp only [quoted?, hparts, and_self, if_true]

theorem quoteParts_listOf_cons (ht : .char '"' ∉ t) (h : ∀ u ∈ ts, .char '"' ∉ u) :
    quoteParts (listOf (t :: ts)) =
      ("listOf(" : Text) :: t :: (ts.flatMap (fun u => [comma, u]) ++ [[.char ')']]) := by
  have hfurther : quoteParts (ts.flatMap (fun u => comma ++ literal u) ++ [CodePoint.char ')']) =
      ts.flatMap (fun u => [comma, u]) ++ [[.char ')']] := by
    induction ts with
    | nil => decide
    | cons u ts ih =>
      obtain ⟨hu, h⟩ := List.forall_mem_cons.mp h
      rw [List.flatMap_cons, List.append_assoc, quoteParts_append_literal (by decide) hu, ih h]
      rfl
  rw [listOf_cons, List.append_assoc, quoteParts_append_literal (by decide) ht]
  rw [← hfurther]
  rfl

theorem listed?_parts (t : Text) (ts : List Text) :
    listed? (t :: (ts.flatMap (fun u => [comma, u]) ++ [[.char ')']])) = some (t :: ts) := by
  induction ts generalizing t with
  | nil => rfl
  | cons u ts ih =>
    rw [List.flatMap_cons, List.append_assoc, List.cons_append, List.cons_append, List.nil_append,
      listed?, if_pos rfl, ih]
    rfl

theorem mem_of_listed? (h : listed? parts = some ts) : ∀ t ∈ ts, t ∈ parts := by
  fun_induction listed? parts generalizing ts with
  | case1 t parts ih =>
    obtain ⟨us, hus, rfl⟩ := Option.map_eq_some_iff.mp h
    intro u hu
    rcases List.mem_cons.mp hu with rfl | hu
    · exact List.mem_cons_self
    · exact List.mem_cons_of_mem _ (List.mem_cons_of_mem _ (ih hus u hu))
  | case2 t after parts _ hlast =>
    obtain rfl := Option.some.inj h
    intro u hu
    rw [List.mem_singleton.mp hu]
    exact List.mem_cons_self
  | case3 => cases h
  | case4 => cases h

/-- What is read from an expression are texts without double quotes. -/
theorem quote_notMem_of_listOf? {expression : Text} (h : listOf? expression = some ts) :
    ∀ t ∈ ts, .char '"' ∉ t := by
  unfold listOf? at h
  split at h
  · obtain rfl := Option.some.inj h
    simp
  · split at h
    · cases h
    · next before parts hparts =>
      split at h
      · intro t ht hquote
        have hmem : t ∈ quoteParts expression := by
          rw [hparts]
          exact List.mem_cons_of_mem _ (mem_of_listed? h t ht)
        simpa using (Text.mem_split hmem _ hquote).2
      · cases h

theorem listOf_cons_ne_nil (t : Text) (ts : List Text) : listOf (t :: ts) ≠ listOf [] := by
  intro h
  have hquote : .char '"' ∈ listOf (t :: ts) := by
    rw [listOf_cons]
    simp [literal]
  rw [h] at hquote
  exact absurd hquote (by decide)

theorem listOf?_listOf (h : ∀ t ∈ ts, .char '"' ∉ t) : listOf? (listOf ts) = some ts := by
  unfold listOf?
  cases ts with
  | nil => rfl
  | cons t ts =>
    obtain ⟨ht, h⟩ := List.forall_mem_cons.mp h
    rw [if_neg (listOf_cons_ne_nil t ts), quoteParts_listOf_cons ht h]
    simp only [if_true, listed?_parts]

theorem listOf_inj (ht : ∀ t ∈ ts, .char '"' ∉ t) (hu : ∀ u ∈ us, .char '"' ∉ u) :
    listOf ts = listOf us ↔ ts = us := by
  constructor
  · intro h
    have hread := congrArg listOf? h
    rw [listOf?_listOf ht, listOf?_listOf hu] at hread
    exact Option.some.inj hread
  · rintro rfl
    rfl

/-- The texts of a list stand between one pair of double quotes. -/
theorem listOf_eq_literal_join (h : ts ≠ []) :
    listOf ts = "listOf(" ++ literal (Text.join between ts) ++ ")" := by
  obtain ⟨t, ts, rfl⟩ := List.exists_cons_of_ne_nil h
  have hquotes : .char '"' :: ts.flatMap (fun u => comma ++ literal u) =
      ts.flatMap (between ++ ·) ++ [CodePoint.char '"'] := by
    induction ts with
    | nil => rfl
    | cons u ts ih =>
      rw [List.flatMap_cons, List.flatMap_cons, List.append_assoc, List.append_assoc, ← ih (by simp)]
      simp [between, literal]
  have hliteral : literal t ++ ts.flatMap (fun u => comma ++ literal u) =
      literal (t ++ ts.flatMap (between ++ ·)) := by
    rw [literal, literal]
    simp [hquotes]
  rw [listOf_cons, Text.join_cons_eq, ← hliteral, ← List.append_assoc]

/-- Lists have one expression if their texts make up one text with what parts them. -/
theorem listOf_eq_listOf_iff (ht : ts ≠ []) (hu : us ≠ []) :
    listOf ts = listOf us ↔ Text.join between ts = Text.join between us := by
  rw [listOf_eq_literal_join ht, listOf_eq_literal_join hu]
  simp [literal]

/-- Every list of two texts or more shares its expression with a list of a single text. -/
theorem listOf_shared_iff :
    (∀ us, listOf us = listOf ts → us = ts) ↔ ts = [] ∨ ∃ t, ts = [t] ∧ ¬ between <:+: t := by
  constructor
  · intro h
    rcases ts with _ | ⟨t, _ | ⟨u, ts⟩⟩
    · exact Or.inl rfl
    · refine Or.inr ⟨t, rfl, ?_⟩
      rintro ⟨front, back, rfl⟩
      have htwo : listOf [front, back] = listOf [front ++ between ++ back] :=
        (listOf_eq_listOf_iff (by simp) (by simp)).mpr (by simp [Text.join])
      simpa using h _ htwo
    · have hone : listOf [Text.join between (t :: u :: ts)] = listOf (t :: u :: ts) :=
        (listOf_eq_listOf_iff (by simp) (by simp)).mpr (by simp [Text.join])
      simpa using h _ hone
  · rintro (rfl | ⟨t, rfl, hno⟩) us hus
    · cases us with
      | nil => rfl
      | cons u us => exact absurd hus (listOf_cons_ne_nil u us)
    · rcases us with _ | ⟨u, us⟩
      · exact absurd hus.symm (listOf_cons_ne_nil t [])
      · have hjoin := (listOf_eq_listOf_iff (by simp) (by simp)).mp hus
        rw [Text.join_cons_eq, Text.join_cons_eq, List.flatMap_nil, List.append_nil] at hjoin
        cases us with
        | nil => simpa using hjoin
        | cons v us =>
          have hinfix : between <:+: t := ⟨u, v ++ us.flatMap (between ++ ·), by
            rw [← hjoin, List.flatMap_cons, List.append_assoc, List.append_assoc]⟩
          exact absurd hinfix hno

/-- A list is read back from its expression if and only if none of its texts holds a double quote,
so such lists have expressions of their own. Among all lists, only one that is empty or has a
single text without the separator shares its expression with no other list. -/
theorem listOf?_listOf_iff (ts : List Text) :
    (listOf? (listOf ts) = some ts ↔ ∀ t ∈ ts, .char '"' ∉ t) ∧
    (∀ us, (∀ t ∈ ts, .char '"' ∉ t) → (∀ u ∈ us, .char '"' ∉ u) →
      listOf ts = listOf us → ts = us) ∧
    ((∀ us, listOf us = listOf ts → us = ts) ↔ ts = [] ∨ ∃ t, ts = [t] ∧ ¬ between <:+: t) :=
  ⟨⟨quote_notMem_of_listOf?, listOf?_listOf⟩, fun _ ht hu => (listOf_inj ht hu).mp,
    listOf_shared_iff⟩

/-- Apostrophes and commas do no harm. -/
theorem listOf?_listOf_apostrophe :
    let ts : List Text := ["it's", "a, b", ""]
    (∀ t ∈ ts, .char '"' ∉ t) ∧ listOf? (listOf ts) = some ts ∧
    ∀ us, (∀ u ∈ us, .char '"' ∉ u) → listOf ts = listOf us → ts = us := by
  intro ts
  have hts : ∀ t ∈ ts, .char '"' ∉ t := by decide
  obtain ⟨hread, hinj, -⟩ := listOf?_listOf_iff ts
  exact ⟨hts, hread.mpr hts, fun us => hinj us hts⟩

/-- One text can look like two. -/
theorem listOf_of_one_eq_of_two :
    listOf [("a\", \"b" : Text)] = listOf [("a" : Text), ("b" : Text)] ∧
    [("a\", \"b" : Text)] ≠ [("a" : Text), ("b" : Text)] := by
  decide

end BuildChain.Script
