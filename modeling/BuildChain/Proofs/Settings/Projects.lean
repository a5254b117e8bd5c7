import BuildChain.Proofs.Settings.ParentsFirst
import BuildChain.Proofs.Settings.Statements
import BuildChain.Proofs.Table

/-! # Projects of a document

The projects that are read from a document are the beginnings of its arguments, each once, with
the directories that its statements move them to.
-/

namespace BuildChain

namespace Settings

open Text

/-! ## Project paths -/

/-- Segments as they come in the paths of a document. -/
def IsPath (segments : List Text) : Prop :=
  ∀ s ∈ segments, ProjectPath.IsSegment s ∧ ∀ c ∈ s, isBlank c = false

theorem isPath_pieces (content : PlainText) : IsPath (pieces (· == ':') content.text) := by
  intro s hs
  obtain ⟨hne, hc⟩ := mem_pieces hs
  exact ⟨⟨hne, fun hm => by simpa using (hc _ hm).2⟩,
    fun c hm => content.not_isBlank c (hc c hm).1⟩

theorem IsPath.of_subset {s t : List Text} (ht : IsPath t) (h : s ⊆ t) : IsPath s :=
  fun u hu => ht u (h hu)

theorem IsPath.pieces_ofSegments {s : List Text} (h : IsPath s) :
    pieces (· == ':') (ProjectPath.ofSegments s) = s :=
  ProjectPath.pieces_ofSegments fun u hu => (h u hu).1

theorem IsPath.segments_ofSegments {s : List Text} (h : IsPath s) :
    ProjectPath.segments (ProjectPath.ofSegments s) = s := by
  have hblank : ∀ c ∈ ProjectPath.ofSegments s, isBlank c = false := by
    cases s with
    | nil =>
      intro c hc
      obtain rfl : c = ':' := by simpa [ProjectPath.ofSegments] using hc
      decide
    | cons t s =>
      intro c hc
      rw [ProjectPath.ofSegments_of_ne_nil (by simp)] at hc
      obtain ⟨u, hu, hc⟩ := List.mem_flatMap.mp hc
      rcases List.mem_cons.mp hc with rfl | hc
      · decide
      · exact (h u hu).2 c hc
  rw [ProjectPath.segments, strip_of_not_blank hblank, h.pieces_ofSegments]

theorem ofSegments_inj {s t : List Text} (hs : IsPath s) (ht : IsPath t) :
    ProjectPath.ofSegments s = ProjectPath.ofSegments t ↔ s = t := by
  constructor
  · intro h
    rw [← hs.pieces_ofSegments, h, ht.pieces_ofSegments]
  · rintro rfl
    rfl

theorem segments_plain (content : PlainText) :
    ProjectPath.segments content.text = pieces (· == ':') content.text := by
  rw [ProjectPath.segments, strip_of_not_blank content.not_isBlank]

theorem ancestry_plain (content : PlainText) :
    ancestry content.text =
      (pieces (· == ':') content.text).inits.tail.map ProjectPath.ofSegments := by
  rw [ancestry, segments_plain, beginnings_eq]

/-! ## The declared projects -/

theorem exists_plain_of_mem_arguments {doc : Document} {t : Text}
    (h : t ∈ doc.flatMap Item.arguments) : ∃ content : PlainText, content.text = t := by
  obtain ⟨item, -, h⟩ := List.mem_flatMap.mp h
  have hlist {list : ArgumentList} (h : t ∈ list.texts) :
      ∃ content : PlainText, content.text = t := by
    rcases List.mem_cons.mp h with rfl | h
    · exact ⟨list.first, rfl⟩
    · obtain ⟨further, -, rfl⟩ := List.mem_map.mp h
      exact ⟨further.argument, rfl⟩
  cases item with
  | call list => exact hlist h
  | command list => exact hlist h
  | _ => cases h

theorem exists_plain_of_mem_moves {doc : Document} {move : Text × Text}
    (h : move ∈ doc.filterMap Item.move?) : ∃ path : PlainText, path.text = move.1 := by
  obtain ⟨item, -, h⟩ := List.mem_filterMap.mp h
  cases item with
  | directory path target =>
    obtain rfl := Option.some.inj h
    exact ⟨path, rfl⟩
  | _ => cases h

theorem mem_projects {doc : Document} {segments : List Text} (h : segments ∈ doc.projects) :
    segments ≠ [] ∧ IsPath segments := by
  obtain ⟨t, ht, hs⟩ := List.mem_flatMap.mp (List.mem_eraseDups.mp h)
  obtain ⟨content, rfl⟩ := exists_plain_of_mem_arguments ht
  have hprefix : segments <+: pieces (· == ':') content.text :=
    (List.mem_inits _ _).mp (List.mem_of_mem_tail hs)
  refine ⟨?_, (isPath_pieces content).of_subset hprefix.subset⟩
  rintro rfl
  cases hp : pieces (· == ':') content.text <;> simp [hp] at hs

theorem projectPaths_bare (doc : Document) :
    projectPaths doc.bare = doc.projects.map ProjectPath.ofSegments := by
  have hancestry : (doc.flatMap Item.arguments).flatMap ancestry =
      ((doc.flatMap Item.arguments).flatMap fun t => (pieces (· == ':') t).inits.tail).map
        ProjectPath.ofSegments := by
    rw [List.map_flatMap]
    refine List.flatMap_congr fun t ht => ?_
    obtain ⟨content, rfl⟩ := exists_plain_of_mem_arguments ht
    exact ancestry_plain content
  rw [projectPaths, includes_bare, hancestry, firstOccurrences_eq, eraseDups_map]
  · rfl
  · intro s hs t ht h
    exact (ofSegments_inj (mem_projects (List.mem_eraseDups.mpr hs)).2
      (mem_projects (List.mem_eraseDups.mpr ht)).2).mp h

theorem get?_directories {doc : Document} {segments : List Text} (h : IsPath segments) :
    (directories doc.bare).get? (ProjectPath.ofSegments segments) = doc.movedTo? segments := by
  have hkey : ∀ move ∈ doc.filterMap Item.move?,
      decide (ProjectPath.normalize move.1 = ProjectPath.ofSegments segments) =
        decide (pieces (· == ':') move.1 = segments) := by
    intro move hmove
    obtain ⟨path, hpath⟩ := exists_plain_of_mem_moves hmove
    rw [decide_eq_decide, ← hpath, ProjectPath.normalize, segments_plain,
      ofSegments_inj (isPath_pieces path) h]
  rw [directories, occurrences_directoryStatement, Table.get?_ofList, List.filter_map,
    List.getLast?_map, Option.map_map, Document.movedTo?, ← List.filter_congr hkey]
  rfl

theorem project_bare {doc : Document} {segments : List Text} (h : segments ∈ doc.projects) :
    Settings.project (directories doc.bare) (ProjectPath.ofSegments segments) =
      doc.project segments := by
  obtain ⟨hne, hpath⟩ := mem_projects h
  have hname : ProjectPath.name (ProjectPath.ofSegments segments) = segments.getLastD [] := by
    rw [ProjectPath.name, hpath.segments_ofSegments]
  have hdirectory : ProjectPath.directory (ProjectPath.ofSegments segments) =
      join "/" segments := by
    rw [ProjectPath.directory, hpath.segments_ofSegments]
  rw [Settings.project, Document.project, hname, hdirectory, get?_directories hpath,
    ProjectPath.ofSegments_of_ne_nil hne]

theorem projects_bare (doc : Document) :
    Settings.projects doc.bare = doc.projects.map doc.project := by
  rw [Settings.projects, projectPaths_bare, List.map_map]
  exact List.map_congr_left fun segments h => project_bare h

end Settings

end BuildChain
