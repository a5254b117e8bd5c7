import BuildChain.Proofs.Settings.Reordering
import BuildChain.Proofs.Text.Blank

/-! # Names and directories by path

Name, default directory and task paths of a project are read off its path after the path is
brought into absolute form once more. This changes a path that ends in a blank, so the projects
follow their paths unless a segment of an included path ends in a blank.
-/

namespace BuildChain

namespace Text

variable {c : CodePoint} {s t : Text}

def EndsInBlank (t : Text) : Prop :=
  ∃ c ∈ t.getLast?, isBlank c = true

instance (t : Text) : Decidable (EndsInBlank t) :=
  decidable_of_iff (t.getLast?.any isBlank = true) (Option.any_eq_true _ _)

theorem endsInBlank_append (h : t ≠ []) : EndsInBlank (s ++ t) ↔ EndsInBlank t := by
  rw [EndsInBlank, List.getLast?_append_of_ne_nil s h, EndsInBlank]

/-- Cutting a text drops the separators alone. -/
theorem flatten_pieces (sep : CodePoint → Bool) (t : Text) :
    (pieces sep t).flatten = t.filter (!sep ·) := by
  rw [pieces, List.flatten_filter_not_isEmpty]
  induction t with
  | nil => rfl
  | cons c t ih =>
    by_cases hc : sep c
    · simp [split, hc, ih]
    · obtain ⟨p, ps, hp⟩ := List.exists_cons_of_ne_nil (split_ne_nil sep t)
      simp_all [split]

end Text

open Text Settings ProjectPath

namespace ProjectPath

variable {front parts : List Text} {s path : Text}

theorem endsInBlank_ofSegments_concat (hs : s ≠ []) :
    EndsInBlank (ofSegments (front ++ [s])) ↔ EndsInBlank s := by
  rw [ofSegments_of_ne_nil (by simp), List.flatMap_append, List.flatMap_singleton,
    List.append_cons, endsInBlank_append hs]

theorem pieces_normalize (path : Text) :
    pieces (· == ':') (normalize path) = segments path :=
  pieces_ofSegments fun _ => isSegment_of_mem_segments

theorem strip_ofSegments (parts : List Text) :
    strip (ofSegments parts) = trimEnd isBlank (ofSegments parts) := by
  apply strip_of_head_not_blank
  intro c hc
  obtain rfl : ':' = c := Option.some.inj hc
  decide

/-- An absolute path is left as it is unless it ends in a blank. -/
theorem normalize_ofSegments_iff (hparts : ∀ s ∈ parts, IsSegment s) :
    normalize (ofSegments parts) = ofSegments parts ↔ ¬ EndsInBlank (ofSegments parts) := by
  constructor
  · rintro hstable ⟨c, hc, hblank⟩
    obtain ⟨front, hfront⟩ := List.getLast?_eq_some_iff.mp hc
    -- The blank at the end is in no segment of the new path, so this has fewer characters.
    have hpieces : segments (ofSegments parts) = pieces (· == ':') (ofSegments parts) := by
      rw [← pieces_normalize, hstable]
    have htrim : trimEnd isBlank (front ++ [c]) = trimEnd isBlank front :=
      List.rdropWhile_concat_pos _ _ _ hblank
    have hcolon : c ≠ ':' := by
      rintro rfl
      exact absurd hblank (by decide)
    have hkept : [c].filter (fun d => !(d == .char ':')) = [c] := by simp [hcolon]
    have hchars := congrArg List.flatten hpieces
    rw [segments, strip_ofSegments, flatten_pieces, flatten_pieces, hfront, htrim,
      List.filter_append, hkept] at hchars
    have hshorter : ((trimEnd isBlank front).filter (fun d => !(d == .char ':'))).length ≤
        (front.filter (fun d => !(d == .char ':'))).length :=
      ((List.rdropWhile_prefix isBlank (l := front)).sublist.filter _).length_le
    rw [hchars, List.length_append, List.length_singleton] at hshorter
    omega
  · intro hend
    have htrim : trimEnd isBlank (ofSegments parts) = ofSegments parts := by
      refine List.rdropWhile_eq_self_iff.mpr fun hne hblank => hend ⟨_, ?_, hblank⟩
      exact List.getLast?_eq_some_getLast hne
    rw [normalize, segments, strip_ofSegments, htrim, pieces_ofSegments hparts]

end ProjectPath

/-- The name of a project is the last segment of its path, its directory has the same segments
unless it is moved, and its tasks are right below its path. -/
structure Project.FollowsPath (moved : Entries) (project : Project) : Prop where
  name_ne_nil : project.name ≠ []
  name : project.name = afterLast ':' project.path
  directory : moved.get? project.path = none →
    project.directory = Text.join "/" (pieces (· == ':') project.path)
  normalize : ProjectPath.normalize project.path = project.path
  task : ∀ t, ProjectPath.task project.path t = project.path ++ ":" ++ t

namespace Settings

variable {script path : Text} {moved : Entries} {parts : List Text}

theorem name_project (moved : Entries) (path : Text) :
    (project moved path).name = afterLast ':' (ProjectPath.normalize path) :=
  name_eq_afterLast path

theorem directory_project (h : moved.get? path = none) :
    (project moved path).directory =
      Text.join "/" (pieces (· == ':') (ProjectPath.normalize path)) := by
  rw [pieces_normalize, project, h]
  rfl

theorem followsPath_project (hne : parts ≠ []) (hparts : ∀ s ∈ parts, IsSegment s) :
    (project moved (ofSegments parts)).FollowsPath moved ↔ ¬ EndsInBlank (ofSegments parts) := by
  rw [← normalize_ofSegments_iff hparts]
  constructor
  · exact Project.FollowsPath.normalize
  · intro hstable
    have hname : (project moved (ofSegments parts)).name = afterLast ':' (ofSegments parts) := by
      rw [name_project, hstable]
    constructor
    · obtain ⟨front, s, rfl⟩ := (List.eq_nil_or_concat parts).resolve_left hne
      rw [hname, afterLast_ofSegments hparts]
      simpa using (hparts s (by simp)).1
    · exact hname
    · intro hunmoved
      have hdirectory : (project moved (ofSegments parts)).directory =
          Text.join "/" (pieces (· == ':') (ProjectPath.normalize (ofSegments parts))) :=
        directory_project hunmoved
      rwa [hstable] at hdirectory
    · exact hstable
    · intro t
      exact congrArg (· ++ ":" ++ t) hstable

theorem exists_parts_of_mem_projects {p : Project} (h : p ∈ projects script) :
    ∃ argument ∈ includes script, ∃ front, front ≠ [] ∧ front <+: segments argument ∧
      p = project (directories script) (ofSegments front) := by
  obtain ⟨path, hpath, rfl⟩ := List.mem_map.mp h
  obtain ⟨argument, hargument, front, hne, hfront, rfl⟩ :=
    declares_iff.mp (mem_projectPaths_iff.mp hpath)
  exact ⟨argument, hargument, front, hne, hfront, rfl⟩

end Settings

/-- Whatever is included, name and directory of a project are those of its path once it is brought
into absolute form again. They follow the path itself unless it ends in a blank, and they all do
if and only if no segment of an included path ends in a blank. -/
theorem Build.followsPath_ofScript (source directoryName : Text) (properties : Entries) :
    let script := stripComments source
    let moved := directories script
    let projects := (ofScript source directoryName properties).projects
    (∀ project ∈ projects,
      project.name = afterLast ':' (ProjectPath.normalize project.path) ∧
      (moved.get? project.path = none →
        project.directory =
          Text.join "/" (pieces (· == ':') (ProjectPath.normalize project.path))) ∧
      (project.FollowsPath moved ↔ ¬ EndsInBlank project.path)) ∧
    ((∀ project ∈ projects, project.FollowsPath moved) ↔
      ∀ argument ∈ includes script, ∀ s ∈ segments argument, ¬ EndsInBlank s) := by
  intro script moved projects
  have hproject : ∀ p ∈ projects, p.FollowsPath moved ↔ ¬ EndsInBlank p.path := by
    intro p hp
    obtain ⟨argument, -, front, hne, hfront, rfl⟩ := exists_parts_of_mem_projects hp
    exact followsPath_project hne fun _ => isSegment_of_mem_beginning hfront
  refine ⟨fun p hp => ⟨?_, ?_, hproject p hp⟩, ?_⟩
  · obtain ⟨path, -, rfl⟩ := List.mem_map.mp hp
    exact name_project moved path
  · obtain ⟨path, -, rfl⟩ := List.mem_map.mp hp
    exact directory_project
  · constructor
    · intro hall argument hargument s hs
      obtain ⟨front, back, hsplit⟩ := List.append_of_mem hs
      have hprefix : front ++ [s] <+: segments argument := by
        rw [hsplit, List.append_cons front s back]
        exact List.prefix_append (front ++ [s]) back
      have hdeclares : Declares script (ofSegments (front ++ [s])) :=
        declares_iff.mpr ⟨argument, hargument, front ++ [s], by simp, hprefix, rfl⟩
      have hmem : project moved (ofSegments (front ++ [s])) ∈ projects :=
        List.mem_map_of_mem (mem_projectPaths_iff.mpr hdeclares)
      have hend := (hproject _ hmem).mp (hall _ hmem)
      rwa [project, endsInBlank_ofSegments_concat (isSegment_of_mem_segments hs).1] at hend
    · intro hall p hp
      rw [hproject p hp]
      obtain ⟨argument, hargument, parts, hne, hfront, rfl⟩ := exists_parts_of_mem_projects hp
      obtain ⟨front, s, rfl⟩ := (List.eq_nil_or_concat parts).resolve_left hne
      have hs : s ∈ segments argument := hfront.subset (by simp)
      rw [project, List.concat_eq_append,
        endsInBlank_ofSegments_concat (isSegment_of_mem_segments hs).1]
      exact hall argument hargument s hs

/-- A settings script in which a blank stands before the colon of an included path. -/
def Settings.blankBeforeColon : Text :=
  "include(\"app :core\", \"lib\")"

theorem Build.followsPath_blankBeforeColon :
    let projects := (ofScript blankBeforeColon "build" []).projects
    let moved := directories (stripComments blankBeforeColon)
    (⟨":lib", "lib", "lib"⟩ : Project) ∈ projects ∧
    (⟨":lib", "lib", "lib"⟩ : Project).FollowsPath moved ∧
    (⟨":app ", "app", "app"⟩ : Project) ∈ projects ∧
    ¬ (⟨":app ", "app", "app"⟩ : Project).FollowsPath moved := by
  intro projects moved
  have hlib : (⟨":lib", "lib", "lib"⟩ : Project) ∈ projects := by decide +kernel
  have happ : (⟨":app ", "app", "app"⟩ : Project) ∈ projects := by decide +kernel
  obtain ⟨hprojects, -⟩ := followsPath_ofScript blankBeforeColon "build" []
  obtain ⟨-, -, hfollows⟩ := hprojects _ hlib
  obtain ⟨-, -, hleaves⟩ := hprojects _ happ
  exact ⟨hlib, hfollows.mpr (by decide), happ, fun h => hleaves.mp h (by decide)⟩

/-- The first project has neither the name nor the task paths that its path says. -/
theorem Build.name_ne_afterLast_path :
    (ofScript blankBeforeColon "build" []).projects =
      [⟨":app ", "app", "app"⟩, ⟨":app :core", "core", "app /core"⟩, ⟨":lib", "lib", "lib"⟩] ∧
    afterLast ':' ":app " = ("app " : Text) ∧
    ProjectPath.normalize ":app " = (":app" : Text) ∧
    ProjectPath.task ":app " "test" = (":app:test" : Text) := by
  decide +kernel

end BuildChain
