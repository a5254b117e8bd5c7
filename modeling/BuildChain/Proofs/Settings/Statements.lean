import BuildChain.Proofs.Settings.Readers

/-! # Statements of a document

Each reader finds its own statements in a document, with the values that they were written with,
and passes over all other items.
-/

namespace BuildChain.Settings

open Text

variable {α : Type} {read : Reader α} {before : Option CodePoint} {c : CodePoint}
  {key t w form rest : Text}

/-! ## Reading one statement -/

theorem includeCall_call (hb : atWordStart before = true) (hw : .char ')' ∉ w) :
    includeCall before (("include(" : Text) ++ (w ++ .char ')' :: t)) = some (arguments w, t) :=
  includeCall_eq_some_iff.mpr ⟨hb, [], w, by simp, hw, call_append _, rfl⟩

theorem includeCommand_command (hb : atWordStart before = true) (ht : comma? t = none)
    (list : ArgumentList) :
    includeCommand before
        (("include " : Text) ++ ((list.chunks .single).flatMap Chunk.bare ++ t)) =
      some (list.texts, t) := by
  have hlist : (list.chunks .single).flatMap Chunk.bare ++ t =
      .char '\'' :: (list.first.text ++ .char '\'' ::
        ((list.further.flatMap (Further.chunks .single)).flatMap Chunk.bare ++ t)) := by
    simp [ArgumentList.chunks, Chunk.bare, Chunk.text, Quote.char]
  refine includeCommand_eq_some_iff.mpr ⟨hb, [' '], (list.chunks .single).flatMap Chunk.bare,
    list.first.text, (list.further.flatMap (Further.chunks .single)).flatMap Chunk.bare ++ t,
    by simp, List.all_eq_true.mp rfl, command_append _, ?_,
    (afterLiterals_further .single list.further ht).symm, (arguments_command list).symm⟩
  rw [hlist]
  exact looseLiteral?_quoted .single list.first _

theorem rootNameStatement_rootName (before : Option CodePoint) (name : PlainText) (t : Text) :
    rootNameStatement before
        (("rootProject.name = " : Text) ++ .char '"' :: (name.text ++ .char '"' :: t)) =
      some (name.text, t) := by
  have hname (u : Text) : ("rootProject.name = " : Text) ++ u =
      ("rootProject.name" : Text) ++ ((" = " : Text) ++ u) :=
    List.append_assoc ("rootProject.name" : Text) (" = " : Text) u
  have hkey (u : Text) : after? ("rootProject.name" : Text) (("rootProject.name = " : Text) ++ u) =
      some ((" = " : Text) ++ u) := by rw [hname, after?_append]
  have hskip (u : Text) : skipBlanks ((" = " : Text) ++ u) = ("= " : Text) ++ u := rfl
  have hequal (u : Text) : after? ("=" : Text) (("= " : Text) ++ u) = some (.char ' ' :: u) :=
    after?_append ['='] (' ' :: u)
  have hskip' (u : Text) : skipBlanks (.char ' ' :: .char '"' :: u) = .char '"' :: u := rfl
  simp only [rootNameStatement, hkey, hskip, hequal, hskip', Option.bind_eq_bind,
    Option.bind_some]
  exact looseLiteral?_quoted .double name t

theorem directoryStatement_directory (before : Option CodePoint) (path target : PlainText)
    (t : Text) :
    directoryStatement before (("project(" : Text) ++ .char '"' :: (path.text ++ .char '"' ::
        ((").projectDir = file(" : Text) ++ .char '"' :: (target.text ++ .char '"' :: t)))) =
      some ((path.text, target.text), t) := by
  have hkey (u : Text) : after? ("project(" : Text) (("project(" : Text) ++ u) = some u :=
    after?_append _ u
  have hquote (u : Text) : skipBlanks (.char '"' :: u) = .char '"' :: u := rfl
  have hpath (u : Text) :
      looseLiteral? (.char '"' :: (path.text ++ .char '"' :: u)) = some (path.text, u) :=
    looseLiteral?_quoted .double path u
  have htarget (u : Text) : looseLiteral? (.char '"' :: (target.text ++ .char '"' :: u)) =
      some (target.text, u) := looseLiteral?_quoted .double target u
  have hclose (u : Text) :
      after? (")" : Text) (skipBlanks ((").projectDir = file(" : Text) ++ u)) =
        some ((".projectDir = file(" : Text) ++ u) :=
    after?_append [')'] ((".projectDir = file(" : Text) ++ u)
  have hdirectory (u : Text) :
      after? (".projectDir" : Text) (skipBlanks ((".projectDir = file(" : Text) ++ u)) =
        some ((" = file(" : Text) ++ u) :=
    after?_append (".projectDir" : Text) ((" = file(" : Text) ++ u)
  have hequal (u : Text) :
      after? ("=" : Text) (skipBlanks ((" = file(" : Text) ++ u)) = some ((" file(" : Text) ++ u) :=
    after?_append ['='] ((" file(" : Text) ++ u)
  have hfile (u : Text) : after? ("file(" : Text) (skipBlanks ((" file(" : Text) ++ u)) = some u :=
    after?_append ("file(" : Text) u
  simp only [directoryStatement, hkey, hquote, hpath, hclose, hdirectory, hequal, hfile, htarget,
    Option.bind_eq_bind, Option.pure_def, Option.bind_some]

/-! ## Scanning for statements -/

def Item.bare (item : Item) : Text :=
  item.chunks.flatMap Chunk.bare

theorem Item.bare_call (list : ArgumentList) (trailing : Option (List Filler)) :
    (call list trailing).bare =
      (("include(" : Text) ++
        ((list.chunks .double ++ trailingChunks trailing).flatMap Chunk.bare ++
          [CodePoint.char ')'])) ++
      [CodePoint.char '\n'] := by
  simp [bare, chunks, Chunk.bare]

theorem Item.bare_command (list : ArgumentList) :
    (command list).bare =
      (("include " : Text) ++ (list.chunks .single).flatMap Chunk.bare) ++
        [CodePoint.char '\n'] := by
  simp [bare, chunks, Chunk.bare]

theorem Item.bare_rootName (name : PlainText) :
    (rootName name).bare =
      (("rootProject.name = " : Text) ++ .char '"' :: (name.text ++ [CodePoint.char '"'])) ++
        [CodePoint.char '\n'] := by
  simp [bare, chunks, Chunk.bare, Chunk.text, Quote.char]

theorem Item.bare_directory (path target : PlainText) :
    (directory path target).bare =
      (("project(" : Text) ++ .char '"' :: (path.text ++ .char '"' ::
        ((").projectDir = file(" : Text) ++ .char '"' :: (target.text ++ [CodePoint.char '"'])))) ++
        ([.char ')', .char '\n'] : Text) := by
  simp [bare, chunks, Chunk.bare, Chunk.text, Quote.char]

/-- The arguments of a call. -/
def Item.call? : Item → Option (List Text)
  | call list _ => some list.texts
  | _ => none

/-- The arguments of a command. -/
def Item.command? : Item → Option (List Text)
  | command list => some list.texts
  | _ => none

theorem Keyed.finds_item (h : Keyed key read) {item : Item}
    (hcode : ∀ w ∈ item.codes, Avoids key w) : Finds read before item.bare t [] :=
  (h.quiet_chunks fun w hw => hcode w (Item.mem_codes hw)).finds

/-- An item may begin with the key of a reader that does not read it. -/
theorem Keyed.finds_headed (h : Keyed key read) {chunks : List Chunk} (hw : w ≠ [])
    (hnone : ∀ before u, read before (w ++ (chunks.flatMap Chunk.bare ++ u)) = none)
    (htail : Avoids key w.tail) (hcode : ∀ v, .code v ∈ chunks → Avoids key v) :
    Finds read before ((Chunk.code w :: chunks).flatMap Chunk.bare) t [] := by
  obtain ⟨c, w, rfl⟩ := List.exists_cons_of_ne_nil hw
  have hrest : Quiet read (w ++ chunks.flatMap Chunk.bare) :=
    (h.quiet_of_avoids htail).append (h.quiet_chunks hcode)
  have hquiet : Quiet read (c :: (w ++ chunks.flatMap Chunk.bare)) := by
    refine .cons (fun before u => ?_) hrest
    rw [List.cons_append, List.append_assoc, ← List.cons_append]
    exact hnone before u
  exact hquiet.finds

/-- A statement is found before the code that ends it. -/
theorem Keyed.finds_statement {value : α} (h : Keyed key read) (hform : form ≠ [])
    (hread : read before (form ++ (rest ++ t)) = some (value, rest ++ t))
    (hrest : Avoids key rest) : Finds read before (form ++ rest) t [value] := by
  obtain ⟨c, form, rfl⟩ := List.exists_cons_of_ne_nil hform
  exact (Finds.of_read hread).append (h.quiet_of_avoids hrest).finds

theorem includeCall_quote (quote : Quote) (before : Option CodePoint) (u : Text) :
    includeCall before (("include " : Text) ++ quote.char :: u) = none := by
  have hkey (u : Text) :
      after? ("include" : Text) (("include " : Text) ++ u) = some (.char ' ' :: u) :=
    after?_append ("include" : Text) (.char ' ' :: u)
  have hskip : skipBlanks (.char ' ' :: quote.char :: u) = quote.char :: u := by cases quote <;> rfl
  have hopen : after? ("(" : Text) (quote.char :: u) = none := by cases quote <;> rfl
  simp only [includeCall, hkey, hskip, hopen, Option.bind_eq_bind, Option.bind_some,
    Option.bind_none, Option.bind_fun_none]

theorem includeCommand_open (before : Option CodePoint) (u : Text) :
    includeCommand before (("include(" : Text) ++ u) = none := by
  have hkey : after? ("include" : Text) (("include(" : Text) ++ u) = some (.char '(' :: u) :=
    after?_append ("include" : Text) (.char '(' :: u)
  have hblank : (.char '(' :: u).head?.any isBlank = false := rfl
  simp only [includeCommand, hkey, hblank, Bool.false_eq_true, guard_false,
    Option.failure_eq_none, Option.bind_eq_bind, Option.bind_some, Option.bind_none,
    Option.bind_fun_none]

theorem finds_includeCall (item : Item) (hb : atWordStart before = true) :
    Finds includeCall before item.bare t item.call?.toList := by
  cases item with
  | call list trailing =>
    have hread := includeCall_call (t := .char '\n' :: t) hb (close_notMem list trailing)
    rw [arguments_call] at hread
    rw [Item.bare_call]
    exact keyed_includeCall.finds_statement (by simp) (by simpa using hread) (by decide)
  | command list =>
    refine keyed_includeCall.finds_headed (by simp) (fun before u => ?_) (by decide)
      fun v hv => ?_
    · exact includeCall_quote .single before _
    · rcases List.mem_append.mp hv with hv | hv
      · rw [eq_of_code_mem_arguments hv]
        decide
      · obtain rfl : v = [.char '\n'] := by simpa using hv
        decide
  | lineComment | blockComment | rootName | directory =>
    exact keyed_includeCall.finds_item (by simp only [Item.codes]; decide)

theorem finds_includeCommand (item : Item) (hb : atWordStart before = true)
    (ht : comma? t = none) : Finds includeCommand before item.bare t item.command?.toList := by
  cases item with
  | call list trailing =>
    refine keyed_includeCommand.finds_headed (by simp) (fun before u => ?_) (by decide)
      fun v hv => ?_
    · exact includeCommand_open before _
    · rcases List.mem_append.mp hv with hv | hv
      · rw [eq_of_code_mem hv]
        decide
      · have hv : v = [.char ')'] ∨ v = [.char '\n'] := by simpa using hv
        rcases hv with rfl | rfl <;> decide
  | command list =>
    have hread := includeCommand_command (t := .char '\n' :: t) hb ht list
    rw [Item.bare_command]
    exact keyed_includeCommand.finds_statement (by simp) (by simpa using hread) (by decide)
  | lineComment | blockComment | rootName | directory =>
    exact keyed_includeCommand.finds_item (by simp only [Item.codes]; decide)

theorem finds_rootNameStatement (item : Item) :
    Finds rootNameStatement before item.bare t item.rootName?.toList := by
  cases item with
  | rootName name =>
    have hread := rootNameStatement_rootName before name (.char '\n' :: t)
    rw [Item.bare_rootName]
    exact keyed_rootNameStatement.finds_statement (by simp) (by simpa using hread) (by decide)
  | lineComment | blockComment | call | command | directory =>
    exact keyed_rootNameStatement.finds_item (by simp only [Item.codes]; decide)

theorem finds_directoryStatement (item : Item) :
    Finds directoryStatement before item.bare t item.move?.toList := by
  cases item with
  | directory path target =>
    have hread := directoryStatement_directory before path target (.char ')' :: .char '\n' :: t)
    rw [Item.bare_directory]
    exact keyed_directoryStatement.finds_statement (by simp) (by simpa using hread) (by decide)
  | lineComment | blockComment | call | command | rootName =>
    exact keyed_directoryStatement.finds_item (by simp only [Item.codes]; decide)

/-! ## Whole documents -/

theorem bare_cons (item : Item) (doc : Document) :
    Document.bare (item :: doc) = item.bare ++ Document.bare doc := by
  simp [Document.bare, Document.chunks, Item.bare]

theorem getLast?_bare (item : Item) : item.bare.getLast? = some (.char '\n') := by
  cases item <;>
    simp [Item.bare, Item.chunks, Chunk.bare, Filler.bare, List.getLast?_cons]

theorem comma?_cons (hc : isBlank c = false) (hne : c ≠ .char ',') : comma? (c :: t) = none := by
  have hafter : after? ("," : Text) (c :: t) = none := if_neg (Ne.symm hne)
  rw [comma?, skipBlanks_cons hc, hafter, Option.map_none]

theorem comma?_item (item : Item) (ht : comma? t = none) : comma? (item.bare ++ t) = none := by
  cases item with
  | lineComment => exact ht
  | blockComment content =>
    have hblank : ∀ c ∈ (Item.blockComment content).bare, isBlank c = true := by
      intro c hc
      simp only [Item.bare, Item.chunks, List.flatMap_cons, List.flatMap_nil, Chunk.bare,
        List.append_nil, List.mem_append] at hc
      rcases hc with hc | hc
      · exact (Filler.block content).isBlank_bare c hc
      · obtain rfl : c = .char '\n' := by simpa using hc
        decide
    rw [comma?, skipBlanks_append hblank]
    exact ht
  | call => exact comma?_cons (by decide) (by decide)
  | command => exact comma?_cons (by decide) (by decide)
  | rootName => exact comma?_cons (by decide) (by decide)
  | directory => exact comma?_cons (by decide) (by decide)

theorem comma?_bare (doc : Document) : comma? doc.bare = none := by
  induction doc with
  | nil => rfl
  | cons item doc ih =>
    rw [bare_cons]
    exact comma?_item item ih

theorem atWordStart_bare (item : Item) (before : Option CodePoint) :
    atWordStart (item.bare.getLast?.or before) = true := by
  rw [getLast?_bare, Option.some_or]
  decide

/-- What is found item by item is found in the document. -/
theorem finds_document {value? : Item → Option α}
    (h : ∀ item before t, atWordStart before = true → comma? t = none →
      Finds read before item.bare t (value? item).toList)
    (doc : Document) (hb : atWordStart before = true) :
    Finds read before doc.bare [] (doc.filterMap value?) := by
  rw [List.filterMap_eq_flatMap_toList]
  induction doc generalizing before with
  | nil => exact .nil
  | cons item doc ih =>
    rw [bare_cons, List.flatMap_cons]
    have hitem := h item before (Document.bare doc ++ []) hb (by simpa using comma?_bare doc)
    exact hitem.append (ih (atWordStart_bare item before))

theorem rootName?_bare (doc : Document) :
    Settings.rootName? doc.bare = doc.findSome? Item.rootName? := by
  have hfinds : Finds rootNameStatement none doc.bare [] (doc.filterMap Item.rootName?) :=
    finds_document (fun item _ _ _ _ => finds_rootNameStatement item) doc rfl
  rw [Settings.rootName?, hfinds.occurrences, List.head?_filterMap]

theorem occurrences_directoryStatement (doc : Document) :
    occurrences directoryStatement doc.bare = doc.filterMap Item.move? :=
  (finds_document (fun item _ _ _ _ => finds_directoryStatement item) doc rfl).occurrences

/-- Two scans of which one finds nothing give the arguments of the other. -/
theorem flatten_zipWith {ms ns : List (Mark (List Text))} (hl : ms.length = ns.length)
    (h : ms.filterMap Mark.value? = [] ∨ ns.filterMap Mark.value? = []) :
    (List.zipWith argumentsAt ms ns).flatten =
      (ms.filterMap Mark.value?).flatten ++ (ns.filterMap Mark.value?).flatten := by
  induction ms generalizing ns with
  | nil =>
    cases ns with
    | nil => rfl
    | cons n ns => simp at hl
  | cons m ms ih =>
    cases ns with
    | nil => simp at hl
    | cons n ns =>
      have hrest := ih (by simpa using hl)
      rcases h with h | h
      · cases hm : m.value? with
        | some value => simp [hm] at h
        | none =>
          have hms : ms.filterMap Mark.value? = [] := by simpa [hm] using h
          cases hn : n.value? <;> simp [argumentsAt, hm, hn, hms, hrest]
      · cases hn : n.value? with
        | some value => simp [hn] at h
        | none =>
          have hns : ns.filterMap Mark.value? = [] := by simpa [hn] using h
          cases hm : m.value? <;> simp [argumentsAt, hm, hn, hns, hrest]

/-- Calls and commands are read in one order, that of the document. -/
theorem flatten_zipWith_bare (doc : Document) (hb : atWordStart before = true) :
    (List.zipWith argumentsAt (marksFrom includeCall 0 before doc.bare)
      (marksFrom includeCommand 0 before doc.bare)).flatten = doc.flatMap Item.arguments := by
  induction doc generalizing before with
  | nil => rfl
  | cons item doc ih =>
    -- both scans mark the item as a whole, so their marks stay aligned in what follows it
    obtain ⟨ms, hl, hms, hm⟩ := finds_includeCall (t := Document.bare doc) item hb
    obtain ⟨ns, hl', hns, hn⟩ := finds_includeCommand item hb (comma?_bare doc)
    have hlength : ms.length = ns.length := hl.trans hl'.symm
    have hsole : ms.filterMap Mark.value? = [] ∨ ns.filterMap Mark.value? = [] := by
      rw [hms, hns]
      cases item <;> simp [Item.call?, Item.command?]
    have hitem : (List.zipWith argumentsAt ms ns).flatten = item.arguments := by
      rw [flatten_zipWith hlength hsole, hms, hns]
      cases item <;> simp [Item.call?, Item.command?, Item.arguments]
    rw [bare_cons, hm, hn, List.zipWith_append hlength, List.flatten_append, hitem,
      ih (atWordStart_bare item before), List.flatMap_cons]

theorem includes_bare (doc : Document) : includes doc.bare = doc.flatMap Item.arguments :=
  flatten_zipWith_bare doc rfl

end BuildChain.Settings
