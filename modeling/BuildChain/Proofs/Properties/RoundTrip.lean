import BuildChain.Proofs.Properties.Document
import BuildChain.Proofs.Table
import BuildChain.Proofs.Text.Utf8
import BuildChain.Run.Load

/-! # Reading back a properties document

The entries that are read from the text of a document are those that the document stands for.
-/

namespace BuildChain

namespace Properties

open Text

variable {pending line s t u : Text} {rest : List Text}

/-! ## Single lines -/

theorem logicalLines_skip (h : strip line = [] ∨ isComment (strip line) = true) :
    logicalLines [] (line :: rest) = logicalLines [] rest := by
  rw [logicalLines]
  rcases h with h | h <;> simp [h]

/-- A line that adds to an entry: it is under way, or the line starts one. -/
def Adds (pending line : Text) : Prop :=
  pending ≠ [] ∨ strip line ≠ [] ∧ isComment (strip line) = false

theorem Adds.not_skipped (h : Adds pending line) :
    (pending.isEmpty && ((strip line).isEmpty || isComment (strip line))) = false := by
  rcases h with h | ⟨hne, hc⟩
  · simp [h]
  · simp [hne, hc]

theorem logicalLines_continued (h : Adds pending line)
    (hs : strip line = s ++ [CodePoint.char '\\']) :
    logicalLines pending (line :: rest) = logicalLines (pending ++ s) rest := by
  rw [logicalLines, h.not_skipped, hs]
  simp

theorem logicalLines_complete (h : Adds pending line)
    (hs : (strip line).getLast? ≠ some (.char '\\')) :
    logicalLines pending (line :: rest) = (pending ++ strip line) :: logicalLines [] rest := by
  rw [logicalLines, h.not_skipped]
  simp [hs]

/-- An empty line at the end adds nothing to an entry that is under way. -/
theorem logicalLines_append_nil (pending : Text) (ls : List Text) :
    logicalLines pending (ls ++ [[]]) = logicalLines pending ls := by
  induction ls generalizing pending with
  | nil =>
    have hempty : strip [] = [] := rfl
    cases pending with
    | nil => rfl
    | cons c pending => simp [logicalLines, hempty]
  | cons line ls ih =>
    rw [List.cons_append, logicalLines, logicalLines]
    simp only [ih]

/-! ## Parts of a line -/

theorem BlankText.isBlank (blanks : BlankText) : ∀ c ∈ blanks.text, isBlank c = true :=
  List.all_eq_true.mp blanks.blank

theorem Padding.eq_of_mem (padding : Padding) : ∀ c ∈ padding.text, c = ' ' ∨ c = '\t' := by
  simpa using padding.space_or_tab

theorem Padding.isBlank (padding : Padding) : ∀ c ∈ padding.text, isBlank c = true := by
  intro c hc
  rcases padding.eq_of_mem c hc with rfl | rfl <;> decide

theorem Padding.isInLine (padding : Padding) : ∀ c ∈ padding.text, IsInLine c := by
  intro c hc
  rcases padding.eq_of_mem c hc with rfl | rfl <;> decide

theorem KeyText.not_isBlank (key : KeyText) : ∀ c ∈ key.text, isBlank c = false := by
  simpa using key.not_blank

theorem Continuation.isBlank_of_head? (continuation : Continuation) :
    ∀ c, continuation.piece.text.head? = some c → isBlank c = false := by
  intro c hc
  simpa [hc] using continuation.not_blank

/-! ## Entries -/

theorem Separator.char_cases (separator : Separator) :
    separator.char = '=' ∨ separator.char = ':' := by
  cases separator
  · exact Or.inl rfl
  · exact Or.inr rfl

theorem KeyText.strip_append (key : KeyText) (t : Text) :
    strip (key.text ++ t) = key.text ++ trimEnd isBlank t := by
  obtain ⟨c, k, hk⟩ := List.exists_cons_of_ne_nil key.ne_nil
  have hhead : ∀ u d, (key.text ++ u).head? = some d → isBlank d = false := by
    intro u d hd
    rw [hk] at hd
    obtain rfl : c = d := by simpa using hd
    exact key.not_isBlank c (by simp [hk])
  have hkey : trimEnd isBlank key.text = key.text := by
    have := hhead []
    rw [List.append_nil] at this
    rw [← strip_of_head_not_blank this, strip_of_not_blank key.not_isBlank]
  rw [strip_of_head_not_blank (hhead t), trimEnd_append, hkey]
  split
  · next h => rw [h, List.append_nil]
  · rfl

theorem KeyText.adds (key : KeyText) (pending t : Text) : Adds pending (key.text ++ t) := by
  obtain ⟨c, k, hk⟩ := List.exists_cons_of_ne_nil key.ne_nil
  have hhash := key.not_comment .hash
  have hexclamation := key.not_comment .exclamation
  right
  rw [key.strip_append, hk]
  simp_all [isComment, CommentMark.char]

theorem Continuation.strip_body_backslash (continuation : Continuation) :
    strip (continuation.body ++ [CodePoint.char '\\']) =
      continuation.piece.text ++ [CodePoint.char '\\'] := by
  have hhead : ∀ c, (continuation.piece.text ++ [CodePoint.char '\\']).head? = some c →
      isBlank c = false := by
    intro c hc
    cases hp : continuation.piece.text with
    | nil =>
      obtain rfl : '\\' = c := by simpa [hp] using hc
      decide
    | cons d p =>
      apply continuation.isBlank_of_head?
      simpa [hp] using hc
  rw [body, List.append_assoc, Text.strip_append continuation.indent.isBlank,
    strip_of_head_not_blank hhead, trimEnd_append_cons (by decide)]
  rfl

theorem Continuation.strip_body (continuation : Continuation) :
    strip continuation.body = trimEnd isBlank continuation.piece.text := by
  rw [body, Text.strip_append continuation.indent.isBlank,
    strip_of_head_not_blank continuation.isBlank_of_head?]

theorem logicalLines_continuations (hp : pending ≠ []) (continuations : List Continuation) :
    logicalLines pending (continuations.map (·.body ++ [CodePoint.char '\\']) ++ rest) =
      logicalLines (pending ++ continuations.flatMap (·.piece.text)) rest := by
  induction continuations generalizing pending with
  | nil => simp
  | cons continuation continuations ih =>
    rw [List.map_cons, List.cons_append,
      logicalLines_continued (Or.inl hp) continuation.strip_body_backslash, ih (by simp [hp]),
      List.flatMap_cons, List.append_assoc]

namespace Entry

variable (entry : Entry)

/-- The value with the cuts undone and the blanks around it. -/
def tail : Text :=
  entry.after.text ++ entry.first.text ++ entry.further.flatMap (·.piece.text)

theorem head_ne_nil : entry.head ≠ [] := by
  simp [head]

theorem body_ne_nil : entry.body ≠ [] := by
  simp [body, head_ne_nil]

theorem adds_body (pending t : Text) : Adds pending (entry.body ++ t) := by
  rw [body, head]
  simp only [List.append_assoc]
  exact entry.key.adds pending _

theorem separator_not_blank : isBlank entry.separator.char = false := by
  rcases entry.separator.char_cases with h | h <;> rw [h] <;> decide

theorem strip_head_append (t : Text) :
    strip (entry.head ++ t) = entry.head ++ trimEnd isBlank t := by
  have htext : entry.head ++ t =
      entry.key.text ++ (entry.before.text ++ entry.separator.char :: t) := by
    simp [head]
  rw [htext, KeyText.strip_append, trimEnd_append_cons entry.separator_not_blank]
  simp [head]

theorem trimEnd_after_append (t : Text) :
    trimEnd isBlank (entry.after.text ++ t) =
      if trimEnd isBlank t = [] then [] else entry.after.text ++ trimEnd isBlank t := by
  have hafter : trimEnd isBlank entry.after.text = [] := by
    rw [trimEnd, List.reverse_eq_nil_iff, List.dropWhile_eq_nil_iff]
    simpa using entry.after.isBlank
  rw [trimEnd_append, hafter]

/-- The first line is not continued unless a backslash is put after it. -/
theorem getLast?_strip_body : (strip entry.body).getLast? ≠ some '\\' := by
  rw [body, strip_head_append, trimEnd_after_append, List.getLast?_append]
  split
  · rcases entry.separator.char_cases with h | h <;> simp [head, h]
  · next hne =>
    have hlast := entry.first.not_backslash
    rw [List.getLast?_eq_some_getLast hne] at hlast
    rw [List.getLast?_append, List.getLast?_eq_some_getLast hne]
    exact hlast

theorem strip_body_backslash :
    strip (entry.body ++ [CodePoint.char '\\']) = entry.body ++ [CodePoint.char '\\'] := by
  rw [body, List.append_assoc, strip_head_append, trimEnd_append_cons (by decide)]
  rfl

/-- The lines of an entry that are all continued add up to its head and its tail. -/
theorem logicalLines_continued_bodies (continuations : List Continuation) :
    logicalLines []
        ((entry.body ++ [CodePoint.char '\\']) ::
          (continuations.map (·.body ++ [CodePoint.char '\\']) ++ rest)) =
      logicalLines (entry.body ++ continuations.flatMap (·.piece.text)) rest := by
  rw [logicalLines_continued (entry.adds_body [] _) entry.strip_body_backslash,
    List.nil_append, logicalLines_continuations entry.body_ne_nil]

/-- The line that an entry is read from, which has its head and, but for blanks at the end, its
tail. -/
theorem exists_logicalLines :
    ∃ t, trimEnd isBlank t = trimEnd isBlank entry.tail ∧ ∀ rest,
      logicalLines [] (entry.lines ++ rest) = (entry.head ++ t) :: logicalLines [] rest := by
  rcases List.eq_nil_or_concat entry.further with h | ⟨front, last, h⟩
  · refine ⟨trimEnd isBlank (entry.after.text ++ entry.first.text), ?_, fun rest => ?_⟩
    · simp only [tail, h, List.flatMap_nil, List.append_nil]
      exact trimEnd_append_trimEnd isBlank [] _
    · have hlines : entry.lines = [entry.body] := by simp [lines, bodies, h]
      have hadds := entry.adds_body [] []
      rw [List.append_nil] at hadds
      rw [hlines, List.singleton_append, logicalLines_complete hadds entry.getLast?_strip_body,
        body, strip_head_append, List.nil_append]
  · refine ⟨entry.after.text ++ entry.first.text ++ front.flatMap (·.piece.text) ++
      trimEnd isBlank last.piece.text, ?_, fun rest => ?_⟩
    · simp only [tail, h, List.concat_eq_append, List.flatMap_append, List.flatMap_singleton]
      rw [trimEnd_append_trimEnd, List.append_assoc]
    · have hbodies : entry.bodies = (entry.body :: front.map (·.body)) ++ [last.body] := by
        simp [bodies, h]
      have hlines : entry.lines ++ rest =
          (entry.body ++ [CodePoint.char '\\']) ::
            (front.map (·.body ++ [CodePoint.char '\\']) ++ (last.body :: rest)) := by
        rw [lines, hbodies, List.dropLast_concat, List.getLast?_concat]
        simp
      rw [hlines, logicalLines_continued_bodies, logicalLines_complete, last.strip_body]
      · simp [body]
      · exact Or.inl (by simp [body_ne_nil])
      · rw [last.strip_body]
        exact last.piece.not_backslash

theorem logicalLines_openLines :
    logicalLines [] (entry.openLines ++ rest) = logicalLines (entry.head ++ entry.tail) rest := by
  have hlines : entry.openLines ++ rest =
      (entry.body ++ [CodePoint.char '\\']) ::
        (entry.further.map (·.body ++ [CodePoint.char '\\']) ++ rest) := by
    simp [openLines, bodies]
  rw [hlines, logicalLines_continued_bodies, body, tail, List.append_assoc]

theorem afterSeparator_eq (t : Text) :
    afterSeparator (entry.before.text ++ entry.separator.char :: t) = skipBlanks t := by
  have hseparator := entry.separator.char_cases
  rw [afterSeparator, skipBlanks_append entry.before.isBlank,
    skipBlanks_cons entry.separator_not_blank]
  simp [hseparator]

theorem entry_head_append (t : Text) :
    entry? (entry.head ++ t) = some (entry.key.text, strip t) := by
  have hkey : ∀ c ∈ entry.key.text, (!endsKey c) = true := by
    intro c hc
    have hspecial := List.any_eq_false.mp entry.key.not_special c hc
    simp_all [endsKey, entry.key.not_isBlank c hc]
  obtain ⟨c, u, hc, hu⟩ : ∃ c u, endsKey c = true ∧
      entry.before.text ++ entry.separator.char :: t = c :: u := by
    cases hb : entry.before.text with
    | nil =>
      refine ⟨_, _, ?_, rfl⟩
      rcases entry.separator.char_cases with h | h <;> simp [endsKey, h]
    | cons d b =>
      refine ⟨_, _, ?_, rfl⟩
      simp [endsKey, entry.before.isBlank d (by simp [hb])]
  have htext : entry.head ++ t = entry.key.text ++ c :: u := by
    rw [← hu]
    simp [head]
  have hend : (!endsKey c) = false := by simp [hc]
  unfold entry?
  rw [htext, takeWhile_append_cons hkey hend, dropWhile_append_cons hkey hend]
  split
  · next h => exact absurd h entry.key.ne_nil
  · rw [← hu, entry.afterSeparator_eq]
    rfl

/-- What is read from an entry. -/
def pair : Text × Text :=
  (entry.key.text, entry.value)

theorem strip_eq_value {t : Text} (h : trimEnd isBlank t = trimEnd isBlank entry.tail) :
    strip t = entry.value := by
  rw [strip_congr h, tail, List.append_assoc, Text.strip_append entry.after.isBlank, value]

theorem filterMap_logicalLines (rest : List Text) :
    (logicalLines [] (entry.lines ++ rest)).filterMap entry? =
      entry.pair :: (logicalLines [] rest).filterMap entry? := by
  obtain ⟨t, ht, hlines⟩ := entry.exists_logicalLines
  rw [hlines, List.filterMap_cons, entry_head_append, entry.strip_eq_value ht]
  rfl

theorem filterMap_logicalLines_open :
    (logicalLines [] entry.openLines).filterMap entry? = [entry.pair] := by
  have hopen : logicalLines [] (entry.openLines ++ []) =
      logicalLines (entry.head ++ entry.tail) [] := entry.logicalLines_openLines
  have hlines : logicalLines [] entry.openLines = [entry.head ++ entry.tail] := by
    rw [List.append_nil] at hopen
    rw [hopen, logicalLines]
    simp [head_ne_nil]
  rw [hlines, List.filterMap_cons, entry_head_append, entry.strip_eq_value rfl]
  rfl

end Entry

/-! ## Documents -/

theorem Entry.isInLine_bodies (entry : Entry) : ∀ l ∈ entry.bodies, ∀ c ∈ l, IsInLine c := by
  have hseparator : IsInLine entry.separator.char :=
    isInLine_of_not_blank entry.separator_not_blank
  intro l hl c hc
  rcases List.mem_cons.mp hl with rfl | hl
  · simp only [body, head, List.mem_append, List.mem_singleton] at hc
    rcases hc with (((hc | hc) | rfl) | hc | hc)
    · exact isInLine_of_not_blank (entry.key.not_isBlank c hc)
    · exact entry.before.isInLine c hc
    · exact hseparator
    · exact entry.after.isInLine c hc
    · exact isInLine_of_any entry.first.in_line c hc
  · obtain ⟨continuation, -, rfl⟩ := List.mem_map.mp hl
    rcases List.mem_append.mp hc with hc | hc
    · exact continuation.indent.isInLine c hc
    · exact isInLine_of_any continuation.piece.in_line c hc

theorem Entry.isInLine_openLines (entry : Entry) : ∀ l ∈ entry.openLines, ∀ c ∈ l, IsInLine c := by
  intro l hl c hc
  obtain ⟨body, hbody, rfl⟩ := List.mem_map.mp hl
  rcases List.mem_append.mp hc with hc | hc
  · exact entry.isInLine_bodies body hbody c hc
  · obtain rfl := List.mem_singleton.mp hc
    decide

theorem Entry.isInLine_lines (entry : Entry) : ∀ l ∈ entry.lines, ∀ c ∈ l, IsInLine c := by
  intro l hl
  rcases List.mem_append.mp hl with hl | hl
  · obtain ⟨body, hbody, rfl⟩ := List.mem_map.mp hl
    exact entry.isInLine_openLines _ (List.mem_map_of_mem (List.dropLast_subset _ hbody))
  · exact entry.isInLine_bodies l (List.mem_of_getLast? (Option.mem_toList.mp hl))

theorem Item.isInLine_lines (item : Item) : ∀ l ∈ item.lines, ∀ c ∈ l, IsInLine c := by
  intro l hl c hc
  cases item with
  | blank blanks =>
    obtain rfl := List.mem_singleton.mp hl
    exact isInLine_of_any blanks.in_line c hc
  | comment indent mark content =>
    obtain rfl := List.mem_singleton.mp hl
    rcases List.mem_append.mp hc with hc | hc
    · exact isInLine_of_any indent.in_line c hc
    · rcases List.mem_cons.mp hc with rfl | hc
      · cases mark <;> decide
      · exact isInLine_of_any content.in_line c hc
  | entry e => exact e.isInLine_lines l hl c hc

theorem Item.filterMap_logicalLines (item : Item) (rest : List Text) :
    (logicalLines [] (item.lines ++ rest)).filterMap entry? =
      item.asEntry.toList.map Entry.pair ++ (logicalLines [] rest).filterMap entry? := by
  cases item with
  | blank blanks =>
    have hstrip : strip blanks.text = [] := by
      have := Text.strip_append (t := []) blanks.isBlank
      rwa [List.append_nil] at this
    rw [lines, List.singleton_append, logicalLines_skip (Or.inl hstrip)]
    rfl
  | comment indent mark content =>
    have hmark : isBlank mark.char = false := by cases mark <;> decide
    have hstrip : strip (indent.text ++ mark.char :: content.text) =
        mark.char :: trimEnd isBlank content.text := by
      rw [Text.strip_append indent.isBlank, strip_of_head_not_blank]
      · exact trimEnd_append_cons (w := []) hmark
      · rintro c hc
        obtain rfl : mark.char = c := Option.some.inj hc
        exact hmark
    have hcomment : isComment (strip (indent.text ++ mark.char :: content.text)) = true := by
      rw [hstrip]
      cases mark <;> rfl
    rw [lines, List.singleton_append, logicalLines_skip (Or.inr hcomment)]
    rfl
  | entry e => exact e.filterMap_logicalLines rest

theorem filterMap_logicalLines_items (items : List Item) (rest : List Text) :
    (logicalLines [] (items.flatMap Item.lines ++ rest)).filterMap entry? =
      (items.filterMap Item.asEntry).map Entry.pair ++
        (logicalLines [] rest).filterMap entry? := by
  induction items with
  | nil => rfl
  | cons item items ih =>
    rw [List.flatMap_cons, List.append_assoc, item.filterMap_logicalLines, ih,
      ← List.append_assoc]
    cases h : item.asEntry <;> simp [h]

namespace Document

variable (doc : Document)

theorem filterMap_logicalLines :
    (logicalLines [] doc.lines).filterMap entry? = doc.allEntries.map Entry.pair := by
  rw [lines, filterMap_logicalLines_items, allEntries, List.map_append]
  congr 1
  cases doc.openEntry with
  | none => rfl
  | some entry => simpa using entry.filterMap_logicalLines_open

theorem entries_eq : doc.entries = Table.ofList (doc.allEntries.map Entry.pair) := by
  have hkeys : (Table.ofList (doc.allEntries.map Entry.pair)).keys = doc.keys := by
    rw [Table.keys_ofList, List.map_map]
    rfl
  have hvalue : ∀ key,
      Table.get? key (Table.ofList (doc.allEntries.map Entry.pair)) = doc.value? key := by
    intro key
    rw [Table.get?_ofList, List.filter_map, List.getLast?_map, Option.map_map]
    rfl
  have hnodup : (Table.ofList (doc.allEntries.map Entry.pair)).keys.Nodup := by
    rw [Table.keys_ofList]
    exact nodup_eraseDups _
  rw [← Table.filterMap_keys hnodup, hkeys, entries]
  simp only [hvalue]

/-- No line of a document has a line ending in it. -/
theorem isInLine_lines : ∀ l ∈ doc.lines, ∀ c ∈ l, IsInLine c := by
  intro l hl
  rw [lines, List.mem_append, List.mem_flatMap, List.mem_flatMap] at hl
  rcases hl with ⟨item, -, hl⟩ | ⟨entry, -, hl⟩
  · exact item.isInLine_lines l hl
  · exact entry.isInLine_openLines l hl

/-- The entries of a document are read from its text. -/
theorem parse_text : parse (foldNewlines doc.text) = doc.entries := by
  have hlines : logicalLines [] (Text.lines (foldNewlines doc.text)) =
      logicalLines [] doc.lines := by
    have hwrite : Text.lines doc.text = doc.lines ∨ Text.lines doc.text ++ [[]] = doc.lines :=
      lines_write doc.isInLine_lines
    rw [lines_foldNewlines]
    rcases hwrite with h | h
    · rw [h]
    · rw [← logicalLines_append_nil, h]
  rw [parse, hlines, filterMap_logicalLines, entries_eq]

end Document

/-- A properties file with the text of a document gives the entries that the document stands for:
its keys in the order of their first occurrence, each with the value that it was given last. No
file holds a text with halves of surrogate pairs. -/
theorem load_entries (doc : Document) {tree : FileTree} {path : FilePath}
    (hwhole : doc.text.IsWhole) (h : tree.read path = .ok (Text.encode doc.text)) :
    Properties.load tree path = .ok doc.entries := by
  have hexists : tree.exists? path = true := by
    rw [FileTree.read] at h
    rw [FileTree.exists?]
    cases ha : tree.at? path with
    | error fault => simp [ha] at h
    | ok node => rfl
  have hread : tree.readText path = .ok (foldNewlines doc.text) := by
    rw [FileTree.readText, h]
    simp only [Text.ofFile, Text.decode_encode hwhole]
  rw [load, if_pos hexists, hread]
  exact congrArg Except.ok doc.parse_text

/-- A document with the text
```
# not continued \
jvm.args : -Xmx1g \
    -ea

roots=src
jvm.args = -Xmx2g\
```
-/
def exampleDocument : Document where
  items := [
    .comment ⟨[], rfl, rfl⟩ .hash ⟨(" not continued \\" : Text), by decide⟩,
    .entry
      { key := ⟨("jvm.args" : Text), by decide, by decide, by decide, by rintro ⟨⟩ <;> decide⟩
        before := ⟨(" " : Text), by decide⟩
        separator := .colon
        after := ⟨(" " : Text), by decide⟩
        first := ⟨("-Xmx1g " : Text), by decide, by decide⟩
        further :=
          [⟨⟨("    " : Text), by decide⟩, ⟨("-ea" : Text), by decide, by decide⟩, by decide⟩] },
    .blank ⟨[], rfl, rfl⟩,
    .entry
      { key := ⟨("roots" : Text), by decide, by decide, by decide, by rintro ⟨⟩ <;> decide⟩
        before := ⟨[], rfl⟩
        separator := .equals
        after := ⟨[], rfl⟩
        first := ⟨("src" : Text), by decide, by decide⟩
        further := [] }]
  openEntry := some
    { key := ⟨("jvm.args" : Text), by decide, by decide, by decide, by rintro ⟨⟩ <;> decide⟩
      before := ⟨(" " : Text), by decide⟩
      separator := .equals
      after := ⟨(" " : Text), by decide⟩
      first := ⟨("-Xmx2g" : Text), by decide, by decide⟩
      further := [] }
  ending := .returnNewline
  ended := true

theorem load_exampleDocument :
    Properties.load
        ⟨[], [([("gradle.properties" : Text)], .file (Text.encode exampleDocument.text))], {}⟩
        (.ofSegment "gradle.properties") =
      .ok [("jvm.args", "-Xmx2g"), ("roots", "src")] :=
  (load_entries exampleDocument (by decide +kernel) (by decide +kernel)).trans (by decide +kernel)

end Properties

end BuildChain
