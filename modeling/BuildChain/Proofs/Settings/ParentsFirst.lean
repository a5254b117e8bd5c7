import Mathlib.Data.List.Infix
import BuildChain.Proofs.FirstOccurrence
import BuildChain.Proofs.ProjectPath
import BuildChain.Settings.Script

/-! # The projects of any script

Project paths are listed one by one, and none is listed twice. Whatever a script says, every path
is listed after the paths of the projects above it.
-/

namespace BuildChain

namespace Settings

open Text ProjectPath

variable {path t : Text} {paths parts front l : List Text}

/-! ## Beginnings and first occurrences -/

theorem beginnings_eq (parts : List Text) : beginnings parts = parts.inits.tail := by
  induction parts with
  | nil => rfl
  | cons t parts ih =>
    have hinits : parts.inits = [] :: parts.inits.tail := by cases parts <;> simp
    rw [beginnings, ih, List.inits_cons, List.tail_cons, hinits]
    simp

theorem firstOccurrences_eq (l : List Text) : firstOccurrences l = l.eraseDups := by
  induction l with
  | nil => rfl
  | cons t l ih =>
    have hother : (fun u : Text => !(u == t)) = fun u => decide (u ≠ t) := by
      funext u
      by_cases h : u = t <;> simp [h]
    rw [firstOccurrences, ih, ← eraseDups_filter, List.eraseDups_cons, hother]

theorem mem_beginnings_iff : front ∈ beginnings parts ↔ front ≠ [] ∧ front <+: parts := by
  induction parts generalizing front with
  | nil => simp [beginnings]
  | cons s parts ih =>
    rw [beginnings, List.mem_cons, List.mem_map]
    constructor
    · rintro (rfl | ⟨rest, hrest, rfl⟩)
      · exact ⟨by simp, by simp⟩
      · exact ⟨by simp, List.cons_prefix_cons.mpr ⟨rfl, (ih.mp hrest).2⟩⟩
    · rintro ⟨hne, hprefix⟩
      obtain rfl | ⟨rest, rfl, hrest⟩ := List.prefix_cons_iff.mp hprefix
      · exact absurd rfl hne
      · cases rest with
        | nil => exact Or.inl rfl
        | cons u rest => exact Or.inr ⟨u :: rest, ih.mpr ⟨by simp, hrest⟩, rfl⟩

theorem beginnings_concat (parts : List Text) (s : Text) :
    beginnings (parts ++ [s]) = beginnings parts ++ [parts ++ [s]] := by
  induction parts with
  | nil => rfl
  | cons u parts ih => simp [beginnings, ih]

/-! ## Listing one path after the other -/

/-- Lists a path last, unless it is listed already. -/
def enlist (paths : List Text) (path : Text) : List Text :=
  if paths.contains path then paths else paths ++ [path]

theorem enlist_eq (paths : List Text) (path : Text) :
    enlist paths path = if path ∈ paths then paths else paths ++ [path] := by
  simp only [enlist, List.contains_iff_mem]

/-- Lists the projects above an included one and then that one. -/
def enlistAncestry (paths : List Text) (argument : Text) : List Text :=
  (ancestry argument).foldl enlist paths

theorem mem_foldl_enlist : t ∈ l.foldl enlist paths ↔ t ∈ paths ∨ t ∈ l := by
  induction l generalizing paths with
  | nil => simp
  | cons path l ih =>
    have hstep : t ∈ enlist paths path ↔ t ∈ paths ∨ t = path := by
      rw [enlist_eq]
      split
      · next h =>
        constructor
        · exact Or.inl
        · rintro (ht | rfl)
          · exact ht
          · exact h
      · simp
    rw [List.foldl_cons, ih, hstep, List.mem_cons, or_assoc]

theorem eraseDups_eq_foldl_enlist (l : List Text) : l.eraseDups = l.foldl enlist [] := by
  induction l using List.reverseRecOn with
  | nil => rfl
  | append_singleton l t ih =>
    rw [eraseDups_concat, List.foldl_append, ← ih, List.foldl_cons, List.foldl_nil,
      enlist_eq]
    simp only [List.mem_eraseDups]

theorem projectPaths_eq_foldl (script : Text) :
    projectPaths script = (includes script).foldl enlistAncestry [] := by
  rw [projectPaths, firstOccurrences_eq, eraseDups_eq_foldl_enlist, List.foldl_flatMap]
  rfl

/-- Every path has segments and is listed once, after the paths of the projects above it. -/
structure ParentsFirst (paths : List Text) : Prop where
  nodup : paths.Nodup
  exists_segments : ∀ path ∈ paths,
    ∃ parts ≠ [], (∀ s ∈ parts, IsSegment s) ∧ path = ofSegments parts
  above : ∀ before path after, paths = before ++ path :: after →
    ∀ parts, (∀ s ∈ parts, IsSegment s) → path = ofSegments parts →
      ∀ front, front ≠ [] → front <+: parts → front ≠ parts → ofSegments front ∈ before

namespace ParentsFirst

theorem nil : ParentsFirst [] where
  nodup := List.nodup_nil
  exists_segments := by simp
  above := by simp

/-- A path can be listed as soon as the paths of the projects above it are. -/
theorem enlist (h : ParentsFirst paths) (hne : parts ≠ []) (hparts : ∀ s ∈ parts, IsSegment s)
    (habove : ∀ front, front ≠ [] → front <+: parts → front ≠ parts → ofSegments front ∈ paths) :
    ParentsFirst (enlist paths (ofSegments parts)) := by
  rw [enlist_eq]
  split
  · exact h
  next hnew =>
  constructor
  · rw [List.nodup_append]
    refine ⟨h.nodup, by simp, ?_⟩
    rintro path hpath other hother rfl
    obtain rfl := List.mem_singleton.mp hother
    exact hnew hpath
  · intro path hpath
    rcases List.mem_append.mp hpath with hpath | hpath
    · exact h.exists_segments path hpath
    · exact ⟨parts, hne, hparts, List.mem_singleton.mp hpath⟩
  · intro before path after heq parts' hparts' hpath
    rcases List.eq_nil_or_concat after with rfl | ⟨rest, last, rfl⟩
    · obtain ⟨rfl, hlast⟩ := List.append_inj' heq rfl
      have hsame : parts' = parts := by
        rw [← pieces_ofSegments hparts', ← hpath, ← List.singleton_inj.mp hlast,
          pieces_ofSegments hparts]
      rw [hsame]
      exact habove
    · rw [List.concat_eq_append, ← List.cons_append, ← List.append_assoc] at heq
      exact h.above before path rest (List.append_inj' heq rfl).1 parts' hparts' hpath

theorem foldl_enlist (h : ParentsFirst paths) (hparts : ∀ s ∈ parts, IsSegment s) :
    ParentsFirst (((beginnings parts).map ofSegments).foldl Settings.enlist paths) := by
  induction parts using List.reverseRecOn with
  | nil => exact h
  | append_singleton parts s ih =>
    rw [beginnings_concat, List.map_append, List.foldl_append]
    apply (ih fun u hu => hparts u (by simp [hu])).enlist (by simp) hparts
    intro front hne hprefix hproper
    rw [mem_foldl_enlist]
    right
    apply List.mem_map_of_mem
    rw [mem_beginnings_iff]
    constructor
    · exact hne
    · exact (List.prefix_concat_iff.mp hprefix).resolve_left hproper

theorem enlistAncestry (h : ParentsFirst paths) (argument : Text) :
    ParentsFirst (enlistAncestry paths argument) :=
  h.foldl_enlist fun _ => isSegment_of_mem_segments

/-- The paths are listed parents first whatever is included. -/
theorem foldl_enlistAncestry (h : ParentsFirst paths) (arguments : List Text) :
    ParentsFirst (arguments.foldl Settings.enlistAncestry paths) := by
  induction arguments generalizing paths with
  | nil => exact h
  | cons argument arguments ih => exact ih (h.enlistAncestry argument)

end ParentsFirst

theorem parentsFirst_projectPaths (script : Text) : ParentsFirst (projectPaths script) := by
  rw [projectPaths_eq_foldl]
  exact ParentsFirst.nil.foldl_enlistAncestry _

/-! ## The projects of a build -/

theorem ancestry_eq (argument : Text) :
    ancestry argument =
      (pieces (· == ':') (ProjectPath.normalize argument)).inits.tail.map ofSegments := by
  rw [ancestry, beginnings_eq, ProjectPath.normalize,
    pieces_ofSegments fun _ => isSegment_of_mem_segments]

theorem map_path_projects (script : Text) :
    (projects script).map Project.path = projectPaths script := by
  rw [projects, List.map_map]
  exact List.map_id _

end Settings

open Settings ProjectPath in
/-- A build has its projects parents first, whatever the text of its settings script. They are
the non-empty beginnings of the included paths, in the order of their first appearance. -/
theorem Build.projects_ofScript (source directoryName : Text) (properties : Entries) :
    let paths := (ofScript source directoryName properties).projects.map Project.path
    let included := includes (stripComments source)
    let segments := fun a => Text.pieces (· == ':') (ProjectPath.normalize a)
    paths.Nodup ∧
    (∀ path ∈ paths,
      ∃ parts ≠ [], (∀ s ∈ parts, IsSegment s) ∧ path = ":" ++ Text.join ":" parts) ∧
    (∀ before path after, paths = before ++ path :: after →
      ∀ parts, (∀ s ∈ parts, IsSegment s) → path = ":" ++ Text.join ":" parts →
        ∀ front, front ≠ [] → front <+: parts → front ≠ parts →
          ":" ++ Text.join ":" front ∈ before) ∧
    (∀ path, path ∈ paths ↔
      ∃ a ∈ included, ∃ front, front ≠ [] ∧ front <+: segments a ∧
        path = ":" ++ Text.join ":" front) ∧
    paths =
      (included.flatMap fun a => (segments a).inits.tail.map (":" ++ Text.join ":" ·)).eraseDups := by
  intro paths included segments
  have hpaths : paths = projectPaths (stripComments source) := map_path_projects _
  have hlisted : ParentsFirst paths := hpaths ▸ parentsFirst_projectPaths _
  have horder : paths =
      (included.flatMap fun a => (segments a).inits.tail.map ofSegments).eraseDups := by
    rw [hpaths, projectPaths, firstOccurrences_eq, funext ancestry_eq]
  refine ⟨hlisted.nodup, hlisted.exists_segments, hlisted.above, fun path => ?_, horder⟩
  rw [horder, List.mem_eraseDups, List.mem_flatMap]
  simp only [List.mem_map, ← beginnings_eq, mem_beginnings_iff]
  constructor
  · rintro ⟨a, ha, front, ⟨hne, hprefix⟩, rfl⟩
    exact ⟨a, ha, front, hne, hprefix, rfl⟩
  · rintro ⟨a, ha, front, hne, hprefix, rfl⟩
    exact ⟨a, ha, front, ⟨hne, hprefix⟩, rfl⟩

end BuildChain
