import BuildChain.Proofs.Properties.Document
import BuildChain.Proofs.Run.Sources
import BuildChain.Proofs.Table
import BuildChain.Proofs.Text.Utf8

/-! # Well-formed entries

Whatever a properties file says, its entries have keys and values of a fixed shape. A comment can
only be taken for an entry where an entry is under way, and then the key has begun before it: a
backslash on a line of its own begins nothing.
-/

namespace BuildChain.Properties

open Text

structure IsKey (key : Text) : Prop where
  ne_nil : key ≠ []
  not_blank : ∀ c ∈ key, isBlank c = false
  equals_notMem : .char '=' ∉ key
  colon_notMem : .char ':' ∉ key
  not_comment : ∀ mark : CommentMark, key.head? ≠ some mark.char

structure IsValue (value : Text) : Prop where
  not_blank_head : ∀ c, value.head? = some c → isBlank c = false
  not_blank_last : ∀ c, value.getLast? = some c → isBlank c = false
  in_line : ∀ c ∈ value, IsInLine c

structure WellFormed (entries : Entries) : Prop where
  nodup_keys : entries.keys.Nodup
  isKey : ∀ e ∈ entries, IsKey e.1
  isValue : ∀ e ∈ entries, IsValue e.2

variable {pending line key value t : Text} {ls : List Text}

/-! ## Lines with their continuations -/

/-- What a line with its continuations is, and the beginning of one that is under way. -/
structure Begun (line : Text) : Prop where
  in_line : ∀ c ∈ line, IsInLine c
  not_comment : isComment line = false

theorem Begun.nil : Begun [] where
  in_line := by simp
  not_comment := rfl

theorem isComment_append (pending line : Text) :
    isComment (pending ++ line) = if pending = [] then isComment line else isComment pending := by
  cases pending <;> rfl

theorem isComment_dropLast (h : isComment line = false) : isComment line.dropLast = false := by
  match line with
  | [] | [_] => rfl
  | _ :: _ :: _ => exact h

/-- Only the first line of an entry has to be told from a comment. -/
theorem Begun.append (hpending : Begun pending) (hin : ∀ c ∈ line, IsInLine c)
    (hcomment : pending = [] → isComment line = false) : Begun (pending ++ line) where
  in_line := by
    intro c hc
    rcases List.mem_append.mp hc with hc | hc
    · exact hpending.in_line c hc
    · exact hin c hc
  not_comment := by
    rw [isComment_append]
    split
    · next hnil => exact hcomment hnil
    · exact hpending.not_comment

/-- The induction is on the lines. What is kept is that the entry under way, if there is one, did
not begin like a comment. -/
theorem begun_of_mem_logicalLines (hpending : Begun pending)
    (hls : ∀ l ∈ ls, ∀ c ∈ l, IsInLine c) : ∀ l ∈ logicalLines pending ls, Begun l := by
  fun_induction logicalLines pending ls with
  | case1 pending hempty => simp
  | case2 pending hempty => simpa using hpending
  | case3 pending line ls stripped hskip ih => exact ih .nil (List.forall_mem_cons.mp hls).2
  | case4 pending line ls stripped hskip hlast ih =>
    obtain ⟨hline, hls⟩ := List.forall_mem_cons.mp hls
    refine ih (hpending.append (fun c hc => ?_) fun hnil => isComment_dropLast ?_) hls
    · exact hline c (mem_of_mem_strip (List.dropLast_subset _ hc))
    · simp_all
  | case5 pending line ls stripped hskip hlast ih =>
    obtain ⟨hline, hls⟩ := List.forall_mem_cons.mp hls
    refine List.forall_mem_cons.mpr ⟨hpending.append (fun c hc => ?_) fun hnil => ?_, ih .nil hls⟩
    · exact hline c (mem_of_mem_strip hc)
    · simp_all

/-! ## Entries -/

theorem entry?_eq_some_iff :
    entry? line = some (key, value) ↔
      key = line.takeWhile (!endsKey ·) ∧ key ≠ [] ∧
        value = trimEnd isBlank (afterSeparator (line.dropWhile (!endsKey ·))) := by
  unfold entry?
  constructor
  · intro h
    split at h
    · cases h
    · next hne =>
      obtain ⟨rfl, rfl⟩ := Prod.mk.inj (Option.some.inj h)
      exact ⟨rfl, hne, rfl⟩
  · rintro ⟨rfl, hne, rfl⟩
    split
    · next h => exact absurd h hne
    · rfl

theorem isKey_of_entry? (hline : Begun line) (h : entry? line = some (key, value)) :
    IsKey key := by
  obtain ⟨rfl, hne, -⟩ := entry?_eq_some_iff.mp h
  have hends : ∀ c ∈ line.takeWhile (!endsKey ·), endsKey c = false := by
    intro c hc
    simpa using List.mem_takeWhile_imp hc
  refine ⟨hne, fun c hc => ?_, fun hc => ?_, fun hc => ?_, fun mark hmark => ?_⟩
  · have := hends c hc
    simp_all [endsKey]
  · exact absurd (hends _ hc) (by decide)
  · exact absurd (hends _ hc) (by decide)
  · have hhead := head?_of_isPrefix (List.takeWhile_prefix _) hmark
    have := hline.not_comment
    cases mark <;> simp_all [isComment, CommentMark.char]

/-- A value starts after the blanks that follow its separator. -/
theorem eq_false_of_head?_afterSeparator {c : CodePoint} (h : (afterSeparator t).head? = some c) :
    isBlank c = false := by
  rw [afterSeparator] at h
  split at h
  · next d rest hskip =>
    split at h
    · exact eq_false_of_head?_dropWhile h
    · rw [← hskip] at h
      exact eq_false_of_head?_dropWhile h
  · cases h

theorem afterSeparator_suffix (t : Text) : afterSeparator t <:+ t := by
  have hskip : skipBlanks t <:+ t := List.dropWhile_suffix isBlank
  rw [afterSeparator]
  split
  · next c rest h =>
    rw [h] at hskip
    split
    · exact (List.dropWhile_suffix isBlank).trans ((List.suffix_cons c rest).trans hskip)
    · exact hskip
  · exact List.nil_suffix

theorem isValue_of_entry? (hline : Begun line) (h : entry? line = some (key, value)) :
    IsValue value := by
  obtain ⟨-, -, rfl⟩ := entry?_eq_some_iff.mp h
  refine ⟨fun c hc => ?_, fun c hc => eq_false_of_getLast?_trimEnd hc, fun c hc => ?_⟩
  · exact eq_false_of_head?_afterSeparator (head?_of_isPrefix (trimEnd_isPrefix _ _) hc)
  · have hc := (afterSeparator_suffix _).subset ((trimEnd_isPrefix _ _).subset hc)
    exact hline.in_line c ((List.dropWhile_suffix _).subset hc)

/-! ## Files -/

theorem wellFormed_parse (t : Text) : WellFormed (parse t) := by
  have hbegun : ∀ l ∈ logicalLines [] (lines t), Begun l :=
    begun_of_mem_logicalLines .nil fun _ hl => isInLine_of_mem_lines hl
  have hentry : ∀ e ∈ parse t, ∃ line, Begun line ∧ entry? line = some e := by
    intro e he
    obtain ⟨line, hline, he⟩ := List.mem_filterMap.mp (Table.mem_of_mem_ofList he)
    exact ⟨line, hbegun line hline, he⟩
  refine ⟨Table.nodup_keys_ofList _, fun e he => ?_, fun e he => ?_⟩
  · obtain ⟨line, hline, he⟩ := hentry e he
    exact isKey_of_entry? hline he
  · obtain ⟨line, hline, he⟩ := hentry e he
    exact isValue_of_entry? hline he

theorem parse_foldNewlines (t : Text) : parse (foldNewlines t) = parse t := by
  rw [parse, lines_foldNewlines, parse]

/-- The entries of a file are those of its text, whatever ends its lines. -/
theorem load_of_read {tree : FileTree} {path : FilePath} (hwhole : t.IsWhole)
    (h : tree.read path = .ok (Text.encode t)) : Properties.load tree path = .ok (parse t) := by
  have hload : (Properties.load tree path).toOption = some (parse t) := by
    rw [toOption_load, FileTree.exists?_eq, FileTree.toOption_readText, FileTree.at?_of_read h,
      ← parse_foldNewlines]
    simp [Except.toOption, Node.text?, Text.ofFile, decode_encode hwhole]
  cases hresult : Properties.load tree path with
  | error failure => simp [hresult, Except.toOption] at hload
  | ok entries => simpa [hresult, Except.toOption] using hload

/-- Whatever the text of a properties file is, it is read, and its entries are well-formed: each
key has one value, keys hold no blank, no separator and do not start like a comment, and values
are stripped and on one line. The text of a file has no halves of surrogate pairs. -/
theorem load_wellFormed {tree : FileTree} {path : FilePath} (hwhole : t.IsWhole)
    (h : tree.read path = .ok (Text.encode t)) :
    ∃ entries, Properties.load tree path = .ok entries ∧ WellFormed entries :=
  ⟨parse t, load_of_read hwhole h, wellFormed_parse t⟩

/-- A file with the text
```
\
#a=b
k\
  #x = \
!v
```
-/
def lookalikes : FileTree :=
  ⟨[], [([("gradle.properties" : Text)],
    .file (Text.encode ("\\\n#a=b\nk\\\n  #x = \\\n!v \n" : Text)))], {}⟩

theorem load_lookalikes :
    Properties.load lookalikes (.ofSegment "gradle.properties") = .ok [("k#x", "!v")] ∧
      WellFormed [("k#x", "!v")] := by
  have hread : lookalikes.read (.ofSegment "gradle.properties") =
      .ok (Text.encode ("\\\n#a=b\nk\\\n  #x = \\\n!v \n" : Text)) := by decide +kernel
  have hload : Properties.load lookalikes (.ofSegment "gradle.properties") =
      .ok [("k#x", "!v")] := by decide +kernel
  obtain ⟨entries, hentries, hwell⟩ := load_wellFormed (by decide +kernel) hread
  rw [hload] at hentries
  obtain rfl := Except.ok.inj hentries
  exact ⟨hload, hwell⟩

end BuildChain.Properties
