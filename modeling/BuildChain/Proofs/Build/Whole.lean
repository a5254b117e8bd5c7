import BuildChain.Proofs.Properties.WellFormed
import BuildChain.Proofs.Settings.IncludeForms
import BuildChain.Proofs.Settings.ParentsFirst
import BuildChain.Proofs.Settings.Tokens
import BuildChain.Proofs.Text.Whole
import BuildChain.Run.Load

/-! # Builds without halves of pairs

The projects of a build and its properties are made of the characters of its files, and a file
that can be read holds no half of a surrogate pair. A root name that is not given in a file is that
of a directory, which may have any name.
-/

namespace BuildChain

open Text

variable {a key line pending t u : Text} {ls parts : List Text}

/-! ## Settings scripts -/

namespace Settings

theorem isWhole_stripComments (h : IsWhole t) : IsWhole (stripComments t) := by
  induction t using token_induction with
  | nil => exact isWhole_nil
  | free c t hread ih =>
    obtain ⟨hc, h⟩ := isWhole_cons.mp h
    rw [stripComments_cons hread]
    exact isWhole_cons.mpr ⟨hc, ih t le_rfl h⟩
  | literal quote form t hform ih =>
    obtain ⟨hliteral, h⟩ := isWhole_append.mp h
    rw [stripComments_literal hform]
    exact isWhole_append.mpr ⟨hliteral, ih t le_rfl h⟩
  | comment form t hread ih =>
    obtain ⟨hcomment, h⟩ := isWhole_append.mp h
    rw [stripComments_comment hread]
    exact isWhole_append.mpr ⟨hcomment.of_subset List.filter_sublist.subset, ih t le_rfl h⟩

theorem isWhole_of_mem_arguments (h : IsWhole t) (ha : a ∈ arguments t) : IsWhole a :=
  h.of_subset (infix_of_mem_arguments ha).subset

theorem isWhole_of_withKeyword (h : IsWhole (withKeyword t)) : IsWhole t :=
  fun c hc => h c (List.mem_append_right ("include" : Text) hc)

theorem isWhole_of_mem_includes (h : IsWhole t) (ha : a ∈ includes t) : IsWhole a := by
  rcases exists_found_of_mem_includes ha with ⟨values, hfound, ha⟩ | ⟨values, hfound, ha⟩
  · obtain ⟨u, c, v, rest, rfl, hread⟩ := exists_read_of_mem_occurrences hfound
    obtain ⟨-, blanks, inner, -, -, hv, rfl⟩ := includeCall_eq_some_iff.mp hread
    rw [hv] at h
    have h := isWhole_of_withKeyword (isWhole_append.mp h).2
    rw [isWhole_append, isWhole_cons, isWhole_append] at h
    exact isWhole_of_mem_arguments h.2.2.1 ha
  · obtain ⟨u, c, v, rest, rfl, hread⟩ := exists_read_of_mem_occurrences hfound
    obtain ⟨-, blanks, passed, content, w, -, -, hv, -, -, rfl⟩ :=
      includeCommand_eq_some_iff.mp hread
    rw [hv] at h
    have h := isWhole_of_withKeyword (isWhole_append.mp h).2
    rw [isWhole_append, isWhole_append] at h
    exact isWhole_of_mem_arguments h.2.1 ha

theorem isWhole_of_looseLiteral? (h : IsWhole t) (hread : looseLiteral? t = some (a, u)) :
    IsWhole a ∧ IsWhole u := by
  obtain ⟨-, -, c, d, -, -, rfl⟩ := looseLiteral?_eq_some_iff.mp hread
  rw [isWhole_cons, isWhole_append, isWhole_cons] at h
  exact ⟨h.2.1, h.2.2.2⟩

theorem isWhole_of_directoryStatement {before : Option CodePoint} {path rest : Text}
    (h : IsWhole t) (hread : directoryStatement before t = some ((path, a), rest)) :
    IsWhole a := by
  simp only [directoryStatement, Option.bind_eq_bind, Option.bind_eq_some_iff, Option.pure_def,
    Option.some.injEq, Prod.mk.injEq] at hread
  obtain ⟨t₁, hproject, ⟨_, t₂⟩, hpath, t₃, hclose, t₄, hmember, t₅, hequal, ⟨_, _⟩, hliteral,
    ⟨-, rfl⟩, -⟩ := hread
  have h₂ := (isWhole_of_looseLiteral? (h.of_after? hproject).skipBlanks hpath).2
  have h₄ := (h₂.skipBlanks.of_after? hclose).skipBlanks.of_after? hmember
  have h₅ := (h₄.skipBlanks.of_after? hequal).skipBlanks
  split at hliteral
  · next inner hfile => exact (isWhole_of_looseLiteral? (h₅.of_after? hfile).skipBlanks hliteral).1
  · exact (isWhole_of_looseLiteral? h₅ hliteral).1

theorem isWhole_of_mem_directories (h : IsWhole t) {e : Text × Text} (he : e ∈ directories t) :
    IsWhole e.2 := by
  obtain ⟨⟨path, directory⟩, hfound, rfl⟩ := List.mem_map.mp (Table.mem_of_mem_ofList he)
  obtain ⟨u, c, v, rest, rfl, hread⟩ := exists_read_of_mem_occurrences hfound
  have hdirectory := isWhole_of_directoryStatement (isWhole_append.mp h).2 hread
  exact hdirectory.of_subset (trimEnd_isPrefix _ _).subset

end Settings

namespace ProjectPath

theorem isWhole_of_mem_segments (h : IsWhole t) (ha : a ∈ segments t) : IsWhole a :=
  IsWhole.of_mem_pieces (fun c hc => h c (mem_of_mem_strip hc)) ha

theorem isWhole_ofSegments (h : ∀ s ∈ parts, IsWhole s) : IsWhole (ofSegments parts) :=
  isWhole_append.mpr ⟨by decide, isWhole_join (by decide) h⟩

theorem isWhole_normalize (h : IsWhole t) : IsWhole (normalize t) :=
  isWhole_ofSegments fun _ => isWhole_of_mem_segments h

theorem isWhole_name (h : IsWhole t) : IsWhole (name t) := by
  rw [name, List.getLastD_eq_getLast?]
  cases hlast : (segments t).getLast? with
  | none => exact isWhole_nil
  | some s => exact isWhole_of_mem_segments h (List.mem_of_getLast? hlast)

theorem isWhole_directory (h : IsWhole t) : IsWhole (directory t) :=
  isWhole_join (by decide) fun _ => isWhole_of_mem_segments h

end ProjectPath

/-- The project has no half of a pair in what is known of it. -/
structure Project.IsWhole (project : Project) : Prop where
  path : project.path.IsWhole
  name : project.name.IsWhole
  directory : project.directory.IsWhole

namespace Settings

theorem isWhole_of_mem_projectPaths (h : IsWhole t) (ha : a ∈ projectPaths t) : IsWhole a := by
  rw [projectPaths, firstOccurrences_eq, List.mem_eraseDups] at ha
  obtain ⟨argument, hincluded, ha⟩ := List.mem_flatMap.mp ha
  obtain ⟨parts, hparts, rfl⟩ := List.mem_map.mp ha
  have hargument := isWhole_of_mem_includes h hincluded
  have hfront := (mem_beginnings_iff.mp hparts).2
  exact ProjectPath.isWhole_ofSegments fun s hs =>
    ProjectPath.isWhole_of_mem_segments hargument (hfront.subset hs)

theorem isWhole_project {moved : Entries} (hmoved : ∀ e ∈ moved, IsWhole e.2) (h : IsWhole t) :
    (project moved t).IsWhole where
  path := h
  name := ProjectPath.isWhole_name h
  directory := by
    rw [project]
    cases hget : moved.get? t with
    | none => exact ProjectPath.isWhole_directory h
    | some directory => exact hmoved (t, directory) (Table.mem_of_get? hget)

theorem isWhole_of_mem_projects (h : IsWhole t) {p : Project} (hp : p ∈ projects t) :
    p.IsWhole := by
  obtain ⟨path, hpath, rfl⟩ := List.mem_map.mp hp
  have hpath := isWhole_of_mem_projectPaths h hpath
  exact isWhole_project (fun _ => isWhole_of_mem_directories h) hpath

end Settings

/-! ## Properties -/

namespace Properties

/-- The induction is on the lines, and a line that is under way stays whole. -/
theorem isWhole_of_mem_logicalLines (hpending : IsWhole pending) (hls : ∀ l ∈ ls, IsWhole l) :
    ∀ l ∈ logicalLines pending ls, IsWhole l := by
  fun_induction logicalLines pending ls with
  | case1 pending hempty => simp
  | case2 pending hempty => simpa using hpending
  | case3 pending line ls stripped hskip ih => exact ih isWhole_nil (List.forall_mem_cons.mp hls).2
  | case4 pending line ls stripped hskip hlast ih =>
    obtain ⟨hline, hls⟩ := List.forall_mem_cons.mp hls
    refine ih (isWhole_append.mpr ⟨hpending, fun c hc => ?_⟩) hls
    exact hline c (mem_of_mem_strip (List.dropLast_subset _ hc))
  | case5 pending line ls stripped hskip hlast ih =>
    obtain ⟨hline, hls⟩ := List.forall_mem_cons.mp hls
    refine List.forall_mem_cons.mpr ⟨?_, ih isWhole_nil hls⟩
    exact isWhole_append.mpr ⟨hpending, fun c hc => hline c (mem_of_mem_strip hc)⟩

theorem isWhole_of_entry? {value : Text} (h : IsWhole line)
    (hentry : entry? line = some (key, value)) : IsWhole value := by
  obtain ⟨-, -, rfl⟩ := entry?_eq_some_iff.mp hentry
  have hsuffix := (afterSeparator_suffix _).trans (List.dropWhile_suffix (l := line) (!endsKey ·))
  exact h.of_subset fun c hc => hsuffix.subset ((trimEnd_isPrefix _ _).subset hc)

theorem isWhole_of_mem_parse (h : IsWhole t) {e : Text × Text} (he : e ∈ parse t) :
    IsWhole e.2 := by
  obtain ⟨line, hline, he⟩ := List.mem_filterMap.mp (Table.mem_of_mem_ofList he)
  have hlines : ∀ l ∈ lines t, IsWhole l := fun _ => h.of_mem_lines
  exact isWhole_of_entry? (isWhole_of_mem_logicalLines isWhole_nil hlines line hline) he

end Properties

/-! ## Files -/

theorem FileTree.isWhole_of_readText {tree : FileTree} {path : FilePath}
    (h : tree.readText path = .ok t) : t.IsWhole := by
  rw [readText] at h
  split at h
  · next bytes =>
    rw [Text.ofFile] at h
    split at h
    · next t' hdecode =>
      obtain rfl := Except.ok.inj h
      exact (isWhole_of_decode hdecode).foldNewlines
    · cases h
  · cases h

theorem Properties.isWhole_of_load {tree : FileTree} {path : FilePath} {entries : Entries}
    (h : Properties.load tree path = .ok entries) : ∀ e ∈ entries, e.2.IsWhole := by
  rw [load] at h
  split at h
  · cases hread : tree.readText path with
    | error failure =>
      rw [hread] at h
      cases h
    | ok t =>
      rw [hread] at h
      obtain rfl := Except.ok.inj h
      exact fun e => isWhole_of_mem_parse (FileTree.isWhole_of_readText hread)
  · obtain rfl := Except.ok.inj h
    exact List.forall_mem_nil _

namespace Build

/-- The projects of a build and the values of its properties have no half of a pair. -/
structure IsWhole (build : Build) : Prop where
  project : ∀ p ∈ build.projects, p.IsWhole
  value : ∀ e ∈ build.properties, e.2.IsWhole

theorem isWhole_ofScript {directoryName : Text} {properties : Entries} (h : t.IsWhole)
    (hproperties : ∀ e ∈ properties, e.2.IsWhole) :
    (ofScript t directoryName properties).IsWhole where
  project _ := Settings.isWhole_of_mem_projects (Settings.isWhole_stripComments h)
  value := hproperties

/-- What is read from the files of a build has no half of a pair. -/
theorem isWhole_of_load {tree : FileTree} {settings : FilePath} {build : Build}
    (h : load tree settings = .ok build) : build.IsWhole := by
  rw [load] at h
  cases hsource : tree.readText settings with
  | error failure =>
    rw [hsource] at h
    cases h
  | ok source =>
    cases hproperties : Properties.load tree (propertiesPath settings) with
    | error failure =>
      rw [hsource, hproperties] at h
      cases h
    | ok properties =>
      rw [hsource, hproperties] at h
      obtain rfl := Except.ok.inj h
      exact isWhole_ofScript (FileTree.isWhole_of_readText hsource)
        (Properties.isWhole_of_load hproperties)

end Build

end BuildChain
