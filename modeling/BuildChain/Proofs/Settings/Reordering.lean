import Mathlib.Data.List.Perm.Lattice
import BuildChain.Proofs.Settings.ParentsFirst

/-! # The order of declarations

Settings scripts that declare the same projects, in any order and as often as they like, lead to
the same projects in some other order. A project above an included one may be included itself or
not.
-/

namespace BuildChain

open Settings ProjectPath

variable {script script' source source' directoryName directoryName' : Text} {path : Text}
  {properties properties' : Entries}

namespace Settings

/-- The paths that a script declares, as they are included or above an included one. -/
def Declares (script path : Text) : Prop :=
  ∃ argument ∈ includes script, path ∈ ancestry argument

instance (script path : Text) : Decidable (Declares script path) :=
  inferInstanceAs (Decidable (∃ argument ∈ includes script, path ∈ ancestry argument))

/-- The scripts declare the same projects, each in the same directory. -/
structure SameDeclarations (script script' : Text) : Prop where
  declares : ∀ path, Declares script path ↔ Declares script' path
  directory : ∀ path, Declares script path →
    (directories script).get? path = (directories script').get? path

theorem mem_projectPaths_iff : path ∈ projectPaths script ↔ Declares script path := by
  rw [projectPaths, firstOccurrences_eq, List.mem_eraseDups, List.mem_flatMap]
  rfl

theorem declares_iff :
    Declares script path ↔
      ∃ argument ∈ includes script, ∃ front, front ≠ [] ∧ front <+: segments argument ∧
        path = ofSegments front := by
  constructor
  · rintro ⟨argument, hargument, hpath⟩
    obtain ⟨front, hfront, rfl⟩ := List.mem_map.mp hpath
    obtain ⟨hne, happlied⟩ := mem_beginnings_iff.mp hfront
    exact ⟨argument, hargument, front, hne, happlied, rfl⟩
  · rintro ⟨argument, hargument, front, hne, hfront, rfl⟩
    exact ⟨argument, hargument, List.mem_map_of_mem (mem_beginnings_iff.mpr ⟨hne, hfront⟩)⟩

theorem isSegment_of_mem_beginning {argument s : Text} {front : List Text}
    (h : front <+: segments argument) (hs : s ∈ front) : IsSegment s :=
  isSegment_of_mem_segments (h.subset hs)

/-- A script whose included paths are all declared by another declares nothing else. -/
theorem declares_of_includes
    (h : ∀ argument ∈ includes script, segments argument ≠ [] →
      Declares script' (ProjectPath.normalize argument))
    (hpath : Declares script path) : Declares script' path := by
  rw [declares_iff] at hpath ⊢
  obtain ⟨argument, hargument, front, hne, hfront, rfl⟩ := hpath
  have hsegments : segments argument ≠ [] := by
    intro hnil
    rw [hnil] at hfront
    exact hne (List.prefix_nil.mp hfront)
  obtain ⟨other, hother, front', -, hfront', heq⟩ :=
    declares_iff.mp (h argument hargument hsegments)
  obtain rfl : segments argument = front' := by
    rw [← pieces_ofSegments fun _ => isSegment_of_mem_segments,
      ← pieces_ofSegments fun _ => isSegment_of_mem_beginning hfront', ← heq,
      ProjectPath.normalize]
  exact ⟨other, hother, front, hne, hfront.trans hfront', rfl⟩

theorem declares_of_normalize
    (h : ∀ path ∈ (includes script).map ProjectPath.normalize,
      path ∈ (includes script').map ProjectPath.normalize)
    (hpath : Declares script path) : Declares script' path := by
  apply declares_of_includes _ hpath
  intro argument hargument hne
  obtain ⟨other, hother, heq⟩ := List.mem_map.mp (h _ (List.mem_map_of_mem hargument))
  have hsegments : segments other = segments argument := by
    rw [← pieces_ofSegments fun _ => isSegment_of_mem_segments, ← ProjectPath.normalize, heq,
      ProjectPath.normalize, pieces_ofSegments fun _ => isSegment_of_mem_segments]
  rw [declares_iff]
  exact ⟨other, hother, segments other, hsegments ▸ hne, List.prefix_rfl, heq.symm⟩

/-- Scripts that include the same paths in another order, or some of them more than once, declare
the same projects. -/
theorem SameDeclarations.of_normalize
    (h : ∀ path, path ∈ (includes script).map ProjectPath.normalize ↔
      path ∈ (includes script').map ProjectPath.normalize)
    (hdirectory : ∀ path, Declares script path →
      (directories script).get? path = (directories script').get? path) :
    SameDeclarations script script' where
  declares _ :=
    ⟨declares_of_normalize fun path => (h path).mp, declares_of_normalize fun path => (h path).mpr⟩
  directory := hdirectory

theorem SameDeclarations.perm_projectPaths (h : SameDeclarations script script') :
    (projectPaths script).Perm (projectPaths script') := by
  rw [List.perm_ext_iff_of_nodup (parentsFirst_projectPaths script).nodup
    (parentsFirst_projectPaths script').nodup]
  intro path
  rw [mem_projectPaths_iff, mem_projectPaths_iff, h.declares]

theorem SameDeclarations.perm_projects (h : SameDeclarations script script') :
    (projects script).Perm (projects script') := by
  have hsame : projects script = (projectPaths script).map (project (directories script')) := by
    apply List.map_congr_left
    intro path hpath
    rw [project, project, h.directory path (mem_projectPaths_iff.mp hpath)]
  rw [hsame]
  exact h.perm_projectPaths.map _

end Settings

namespace Build

/-- The builds are called the same and have the same projects in some order. -/
structure Reorders (build build' : Build) : Prop where
  rootName : build.rootName = build'.rootName
  projects : build.projects.Perm build'.projects

theorem reorders_ofScript
    (hroot : (ofScript source directoryName properties).rootName =
      (ofScript source' directoryName' properties').rootName)
    (h : SameDeclarations (stripComments source) (stripComments source')) :
    Reorders (ofScript source directoryName properties)
      (ofScript source' directoryName' properties') where
  rootName := hroot
  projects := h.perm_projects

end Build

end BuildChain
