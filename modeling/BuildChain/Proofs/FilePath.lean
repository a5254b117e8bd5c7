import BuildChain.FilePath
import BuildChain.Proofs.Text.Split
import BuildChain.Proofs.Text.Utf8

/-! # Paths and their texts

A path is read back from its text if its segments are such as can be read off a text. What a path
is called is its last segment, which the path of a directory before it does not change.
-/

namespace BuildChain.FilePath

variable {path above below : FilePath} {segments : List Text}

/-- A segment that can be read off a text. -/
def IsSegment (s : Text) : Prop :=
  (s ≠ [] ∧ .char '/' ∉ s) ∧ s ≠ [.char '.']

/-- All segments can be read off a text. -/
def IsPlain (path : FilePath) : Prop :=
  ∀ s ∈ path.segments, IsSegment s

theorem isPlain_ofText (t : Text) : (ofText t).IsPlain := by
  intro s hs
  obtain ⟨hs, hdot⟩ := List.mem_filter.mp hs
  obtain ⟨hne, hc⟩ := Text.mem_pieces hs
  refine ⟨⟨hne, ?_⟩, by simpa using hdot⟩
  intro hslash
  simpa using (hc _ hslash).2

theorem IsPlain.div (ha : above.IsPlain) (hb : below.IsPlain) : (above / below).IsPlain := by
  intro s hs
  change s ∈ (join above below).segments at hs
  unfold join at hs
  split at hs
  · rcases List.mem_append.mp hs with hs | hs
    · exact ha s hs
    · exact hb s hs
  · exact hb s hs

theorem takeWhile_join_slash (h : ∀ s ∈ segments, IsSegment s) :
    (Text.join [.char '/'] segments).takeWhile (· == .char '/') = [] := by
  cases segments with
  | nil => rfl
  | cons s segments =>
    obtain ⟨⟨hne, hslash⟩, -⟩ := h s List.mem_cons_self
    obtain ⟨c, s, rfl⟩ := List.exists_cons_of_ne_nil hne
    have hc : (c == '/') = false := by
      rw [beq_eq_false_iff_ne]
      exact fun hc => hslash (by simp [hc])
    rw [Text.join_cons, List.cons_append, List.takeWhile_cons_of_neg (by simp [hc])]

theorem text_eq (path : FilePath) :
    path.text =
      match path.anchor with
      | .working =>
        if Text.join ['/'] path.segments = [] then ['.'] else Text.join ['/'] path.segments
      | .root => '/' :: Text.join ['/'] path.segments
      | .doubleRoot => '/' :: '/' :: Text.join ['/'] path.segments := by
  obtain ⟨anchor, segments⟩ := path
  cases anchor <;> simp [text]

theorem IsPlain.ofText_text (h : path.IsPlain) : ofText path.text = path := by
  have hstart := takeWhile_join_slash h
  have hpieces : Text.pieces (· == '/') (Text.join ['/'] path.segments) = path.segments :=
    Text.pieces_join fun s hs => (h s hs).1
  have hslash : ∀ t, Text.pieces (· == '/') ('/' :: t) = Text.pieces (· == '/') t :=
    fun t => Text.pieces_append_cons (by simp) [] t
  have hfilter : path.segments.filter (· ≠ [.char '.']) = path.segments := by
    rw [List.filter_eq_self]
    intro s hs
    simpa using (h s hs).2
  rw [text_eq]
  obtain ⟨anchor, segments⟩ := path
  generalize Text.join ['/'] segments = t at hstart hpieces ⊢
  cases anchor with
  | working =>
    by_cases hnil : t = []
    · subst hnil
      subst hpieces
      rfl
    · simp only [hnil, if_false, ofText, hstart, hpieces, hfilter, List.length_nil]
  | root | doubleRoot =>
    simp only [ofText, hslash, hpieces, hfilter, hstart, List.takeWhile_cons_of_pos, BEq.rfl,
      List.length_cons, List.length_nil]

theorem ofText_eq_ofSegment {name : Text} (h : IsSegment name) : ofText name = ofSegment name := by
  have hplain : (ofSegment name).IsPlain := by
    intro s hs
    obtain rfl := List.mem_singleton.mp hs
    exact h
  have htext : (ofSegment name).text = name := by
    obtain ⟨c, rest, rfl⟩ := List.exists_cons_of_ne_nil h.1.1
    simp [text_eq, ofSegment]
  rw [← hplain.ofText_text, htext]

/-- A text that starts with a slash is a path of its own. -/
theorem div_ofText_of_slash (path : FilePath) (t : Text) :
    path / ofText ('/' :: t) = ofText ('/' :: t) := by
  change join path (ofText ('/' :: t)) = ofText ('/' :: t)
  have hanchor : (ofText ('/' :: t)).anchor ≠ .working := by
    rw [ofText, List.takeWhile_cons_of_pos (by decide), List.length_cons]
    cases (t.takeWhile (· == .char '/')).length with
    | zero => simp
    | succ n => cases n <;> simp
  unfold join
  split
  · next h => exact absurd h hanchor
  · rfl

/-! ## Names of files -/

/-- The segment can be the name of a file. -/
def IsName (s : Text) : Prop :=
  (∀ c ∈ s, c.isStray = false) ∧ .char '\x00' ∉ s

instance (s : Text) : Decidable (IsName s) :=
  inferInstanceAs (Decidable ((∀ c ∈ s, c.isStray = false) ∧ .char '\x00' ∉ s))

/-- The text of a path has the code points of its segments and nothing that is not part of every
name. -/
theorem mem_text_iff {c : CodePoint} (hslash : c ≠ '/') (hdot : c ≠ '.') :
    c ∈ path.text ↔ ∃ s ∈ path.segments, c ∈ s := by
  have hjoin : c ∈ Text.join ['/'] path.segments ↔ ∃ s ∈ path.segments, c ∈ s := by
    cases path.segments with
    | nil => simp [Text.join]
    | cons s segments => simp [Text.join_cons, hslash]
  rw [text_eq, ← hjoin]
  cases path.anchor with
  | working =>
    simp only
    split
    · next hnil => simp [hnil, hdot]
    · rfl
  | root | doubleRoot => simp [hslash]

theorem pathError?_text_eq_none_iff : Text.pathError? path.text = none ↔ path.hasStray = false := by
  have hmem : ∀ c : CodePoint, c.isStray = true →
      (c ∈ path.text ↔ ∃ s ∈ path.segments, c ∈ s) := by
    intro c hc
    apply mem_text_iff
    · rintro rfl
      cases hc
    · rintro rfl
      cases hc
  rw [Text.pathError?, Text.errorAt?_eq_none_iff, ← Bool.not_eq_true, hasStray, List.any_eq_true]
  constructor
  · rintro hall ⟨s, hs, hstray⟩
    obtain ⟨c, hc, hstray⟩ := List.any_eq_true.mp hstray
    rw [hall c ((hmem c hstray).mpr ⟨s, hs, hc⟩)] at hstray
    cases hstray
  · intro hnone c hc
    rw [Bool.eq_false_iff]
    intro hstray
    obtain ⟨s, hs, hcs⟩ := (hmem c hstray).mp hc
    exact hnone ⟨s, hs, List.any_eq_true.mpr ⟨c, hcs, hstray⟩⟩

def fileName? (path : FilePath) : Option Text :=
  path.segments.getLast?

theorem fileName?_div {name : Text} (h : below.fileName? = some name) (above : FilePath) :
    (above / below).fileName? = some name := by
  rw [fileName?] at h
  change (join above below).segments.getLast? = some name
  unfold join
  split
  · rw [List.getLast?_append, h, Option.some_or]
  · exact h

theorem exists_append_of_slash_mem {t : Text} (h : .char '/' ∈ t) :
    ∃ front stem, t = front ++ .char '/' :: stem ∧ .char '/' ∉ stem := by
  obtain ⟨stem, front, heq, hstem⟩ := List.eq_append_cons_of_mem (List.mem_reverse.mpr h)
  refine ⟨front.reverse, stem.reverse, ?_, by simpa using hstem⟩
  rw [← List.reverse_reverse t, heq]
  simp

/-- A text without slashes at the end of a path's text ends the name of the file. -/
theorem exists_fileName?_ofText (t ending : Text) (hslash : .char '/' ∉ ending)
    (hlength : 2 ≤ ending.length) :
    ∃ stem, (ofText (t ++ ending)).fileName? = some (stem ++ ending) := by
  have hpieces : ∃ front stem,
      Text.pieces (· == .char '/') (t ++ ending) = front ++ [stem ++ ending] := by
    have hlast : ∀ stem, .char '/' ∉ stem →
        Text.pieces (· == .char '/') (stem ++ ending) = [stem ++ ending] := by
      intro stem hstem
      apply Text.pieces_of_notMem
      · intro hnil
        rw [(List.append_eq_nil_iff.mp hnil).2] at hlength
        simp at hlength
      · simp [hstem, hslash]
    by_cases ht : .char '/' ∈ t
    · obtain ⟨front, stem, rfl, hstem⟩ := exists_append_of_slash_mem ht
      refine ⟨Text.pieces (· == .char '/') front, stem, ?_⟩
      rw [List.append_assoc, List.cons_append, Text.pieces_append_cons (by simp), hlast stem hstem]
    · exact ⟨[], t, hlast t ht⟩
  obtain ⟨front, stem, hpieces⟩ := hpieces
  refine ⟨stem, ?_⟩
  have hkeep : stem ++ ending ≠ [.char '.'] := by
    intro hdot
    have hone := congrArg List.length hdot
    simp only [List.length_append, List.length_singleton] at hone
    omega
  simp [fileName?, ofText, hpieces, hkeep]

end BuildChain.FilePath
