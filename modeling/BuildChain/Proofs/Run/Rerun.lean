import BuildChain.Proofs.Run.DryRun
import BuildChain.Proofs.Run.Replay

/-! # Running again

A run writes none of the files that it reads. So a second run of the same request plans the same,
or it finds a directory in the place of a file to be read and fails before it writes. In both
cases the files stay as they are.
-/

namespace BuildChain

open FileTree

namespace FileTree

variable {before after tree : FileTree} {path directory : FilePath} {l : Location} {name : Text}

/-- The last step of a path is kept in the location that it leads to. -/
theorem getLast?_of_locate (hlocate : tree.locate path = .ok l) (hname : path.fileName? = some name)
    (hup : name ≠ "..") : l.getLast? = some name := by
  obtain ⟨anchor, segments⟩ := path
  obtain ⟨front, rfl⟩ := List.getLast?_eq_some_iff.mp hname
  obtain ⟨-, above, -, -, rfl⟩ := locate_concat_eq_ok_iff.mp hlocate
  rw [Location.enter, if_neg hup]
  exact List.getLast?_concat

theorem locate_div_ofSegment :
    tree.locate (directory / .ofSegment name) = .ok l ↔
      FilePath.IsName name ∧ ∃ above, tree.locate directory = .ok above ∧
        tree.kindAt? above = some .directory ∧ above.enter name = l :=
  locate_concat_eq_ok_iff

theorem exists?_iff :
    tree.exists? path = true ↔ ∃ l node, tree.locate path = .ok l ∧ tree.get? l = some node := by
  rw [exists?, at?]
  cases tree.locate path with
  | error fault => simp [Except.isOk, Except.toBool]
  | ok location =>
    cases hnode : tree.get? location <;> simp [hnode, Except.isOk, Except.toBool]

/-- Where files are called like those that a run reads, nothing has changed, except that there may
be a directory where nothing was. -/
structure SparesSources (before after : FileTree) : Prop where
  keepsDirectories : KeepsDirectories before after
  untouched : ∀ l name, l.getLast? = some name → name ∈ Settings.sourceNames →
    Untouched before after l

namespace SparesSources

theorem untouched_of_locate (h : SparesSources before after) (hname : name ∈ Settings.sourceNames)
    (hlocate : before.locate (directory / .ofSegment name) = .ok l) :
    Untouched before after l := by
  have hup : ∀ name ∈ Settings.sourceNames, name ≠ ".." := by decide
  have hlast : (directory / .ofSegment name).fileName? = some name := FilePath.fileName?_div rfl _
  exact h.untouched l name (getLast?_of_locate hlocate hlast (hup name hname)) hname

/-- What is there to be read stays there, and where nothing was there may be a directory. -/
theorem at?_eq_or (h : SparesSources before after) (hname : name ∈ Settings.sourceNames)
    (hdirectory : before.isDirectory directory = true) :
    after.at? (directory / .ofSegment name) = before.at? (directory / .ofSegment name) ∨
      before.exists? (directory / .ofSegment name) = false ∧
        after.at? (directory / .ofSegment name) = .ok .directory := by
  have hnames : ∀ name ∈ Settings.sourceNames, FilePath.IsName name := by decide
  obtain ⟨above, habove, hkind⟩ := isDirectory_iff.mp hdirectory
  have hlocate : before.locate (directory / .ofSegment name) = .ok (above.enter name) :=
    locate_div_ofSegment.mpr ⟨hnames name hname, above, habove, hkind, rfl⟩
  have hlocate' := h.keepsDirectories.locate hlocate
  rcases h.untouched_of_locate hname hlocate with heq | ⟨hnone, hnew⟩
  · left
    rw [at?, at?, hlocate, hlocate']
    simp only [heq]
  · right
    constructor
    · rw [Bool.eq_false_iff, ne_eq, exists?_iff]
      rintro ⟨l, node, hl, hnode⟩
      rw [hlocate] at hl
      rw [← Except.ok.inj hl, hnone] at hnode
      cases hnode
    · rw [at?, hlocate']
      simp only [hnew]

end SparesSources

theorem readText_congr (h : after.at? path = before.at? path) :
    after.readText path = before.readText path := by
  rw [readText, readText, read, read, h]

theorem exists?_congr (h : after.at? path = before.at? path) :
    after.exists? path = before.exists? path := by
  rw [exists?, exists?, h]

theorem readText_of_directory (h : tree.at? path = .ok .directory) :
    tree.readText path = .error (.file ⟨.isDirectory, path⟩) := by
  rw [readText, read, h]

end FileTree

theorem Written.sparesSources {before after : FileTree} {made : List Deposit}
    (h : Written before made after) (hapart : ∀ d ∈ made, d.path.IsApart) :
    SparesSources before after where
  keepsDirectories := h.keepsDirectories
  untouched l name hlast hname := by
    apply h.untouched
    intro d hd hlocate
    obtain ⟨name', hname', hup, hnot⟩ := hapart d hd
    rw [getLast?_of_locate hlocate hname' hup] at hlast
    exact hnot (Option.some.inj hlast ▸ hname)

/-! ## Reading again -/

theorem Build.load_eq_ok_iff {tree : FileTree} {settings : FilePath} {build : Build} :
    load tree settings = .ok build ↔
      ∃ source properties, tree.readText settings = .ok source ∧
        Properties.load tree (propertiesPath settings) = .ok properties ∧
        ofScript source (settings.parent.directoryName tree.working) properties = build := by
  rw [load]
  cases tree.readText settings with
  | error failure => simp [bind, Except.bind]
  | ok source =>
    cases Properties.load tree (propertiesPath settings) with
    | error failure => simp [bind, Except.bind]
    | ok properties => simp [bind, Except.bind, pure, Except.pure]

/-- Properties that can be read after the run are those from before. -/
theorem Properties.load_again {before after : FileTree} {directory : FilePath}
    {properties : Entries} (h : SparesSources before after)
    (hdirectory : before.isDirectory directory = true)
    (hload : load after (directory / .ofSegment "gradle.properties") = .ok properties) :
    load before (directory / .ofSegment "gradle.properties") = .ok properties := by
  rcases h.at?_eq_or List.mem_cons_self hdirectory with heq | ⟨-, hnew⟩
  · rwa [load, exists?_congr heq, readText_congr heq] at hload
  · rw [load, exists?, hnew, readText_of_directory hnew] at hload
    cases hload

namespace Settings

variable {before after : FileTree} {directory settings : FilePath}

theorem exists_name_of_mem_candidates (h : settings ∈ candidates directory) :
    ∃ name ∈ sourceNames, settings = directory / .ofSegment name := by
  obtain ⟨name, hname, rfl⟩ := List.mem_map.mp h
  exact ⟨name, List.mem_cons_of_mem _ hname, rfl⟩

theorem propertiesPath_of_file? (h : file? before directory = some settings) :
    Build.propertiesPath settings = directory / .ofSegment "gradle.properties" := by
  obtain ⟨name, -, rfl⟩ := exists_name_of_mem_candidates (List.mem_of_find?_eq_some h)
  rw [Build.propertiesPath, FilePath.parent_join_ofSegment]

theorem file?_ne_none_again (h : SparesSources before after)
    (hdirectory : before.isDirectory directory = true)
    (hfile : file? before directory = some settings) : file? after directory ≠ none := by
  obtain ⟨name, hname, rfl⟩ := exists_name_of_mem_candidates (List.mem_of_find?_eq_some hfile)
  have hexists := List.find?_some hfile
  rw [file?, ← Option.isSome_iff_ne_none, List.find?_isSome]
  refine ⟨_, List.mem_of_find?_eq_some hfile, ?_⟩
  rcases h.at?_eq_or hname hdirectory with heq | ⟨hmissing, -⟩
  · rwa [exists?_congr heq]
  · rw [hmissing] at hexists
    cases hexists

/-- A settings script that can be read after the run was chosen before as well. -/
theorem file?_again (h : SparesSources before after)
    (hdirectory : before.isDirectory directory = true) (hfile : file? after directory = some settings)
    (hread : after.at? settings ≠ .ok .directory) :
    file? before directory = some settings ∧ after.at? settings = before.at? settings := by
  obtain ⟨hexists, front, rest, hsplit, hfront⟩ := List.find?_eq_some_iff_append.mp hfile
  have heq : after.at? settings = before.at? settings := by
    obtain ⟨name, hname, rfl⟩ := exists_name_of_mem_candidates (List.mem_of_find?_eq_some hfile)
    exact (h.at?_eq_or hname hdirectory).resolve_right fun hnew => hread hnew.2
  refine ⟨?_, heq⟩
  rw [file?, List.find?_eq_some_iff_append]
  refine ⟨by rwa [← exists?_congr heq], front, rest, hsplit, ?_⟩
  intro candidate hcandidate
  have hmem : candidate ∈ candidates directory := by simp [hsplit, hcandidate]
  obtain ⟨name, hname, rfl⟩ := exists_name_of_mem_candidates hmem
  have hmissing := hfront _ hcandidate
  rcases h.at?_eq_or hname hdirectory with hsame | ⟨hbefore, -⟩
  · rwa [← exists?_congr hsame]
  · rw [hbefore]
    rfl

end Settings

namespace Request

variable {request : Request} {tree after : FileTree} {build : Build}

theorem build_eq_ok_iff :
    request.build tree = .ok build ↔
      ∃ settings, Settings.file? tree request.directory = some settings ∧
        Build.load tree settings = .ok build := by
  rw [Request.build]
  cases Settings.file? tree request.directory with
  | none => simp
  | some settings => cases hload : Build.load tree settings <;> simp [hload]

theorem isDirectory_of_file? {settings : FilePath}
    (h : Settings.file? tree request.directory = some settings) :
    tree.isDirectory request.directory = true := by
  obtain ⟨name, -, rfl⟩ := Settings.exists_name_of_mem_candidates (List.mem_of_find?_eq_some h)
  obtain ⟨l, node, hlocate, -⟩ := exists?_iff.mp (List.find?_some h)
  obtain ⟨-, above, habove, hkind, -⟩ := locate_div_ofSegment.mp hlocate
  exact isDirectory_iff.mpr ⟨above, habove, hkind⟩

/-- The build is read again, or not at all. -/
theorem build_again (h : SparesSources tree after) (hbuild : request.build tree = .ok build) :
    request.build after = .ok build ∨
      ∃ failure, request.build after = .error (.unreadable failure) := by
  obtain ⟨settings, hfile, hload⟩ := build_eq_ok_iff.mp hbuild
  obtain ⟨source, properties, hread, hproperties, rfl⟩ := Build.load_eq_ok_iff.mp hload
  have hdirectory := isDirectory_of_file? hfile
  obtain ⟨settings', hfile'⟩ :=
    Option.ne_none_iff_exists'.mp (Settings.file?_ne_none_again h hdirectory hfile)
  cases hload' : Build.load after settings' with
  | error failure =>
    right
    refine ⟨failure, ?_⟩
    rw [Request.build, hfile']
    simp only [hload']
  | ok build' =>
    left
    rw [build_eq_ok_iff]
    refine ⟨settings', hfile', ?_⟩
    obtain ⟨source', properties', hread', hproperties', rfl⟩ := Build.load_eq_ok_iff.mp hload'
    have hnew : after.at? settings' ≠ .ok .directory := by
      intro hnew
      rw [readText_of_directory hnew] at hread'
      cases hread'
    obtain ⟨hfirst, hsame⟩ := Settings.file?_again h hdirectory hfile' hnew
    obtain rfl := Option.some.inj (hfile.symm.trans hfirst)
    obtain rfl : source' = source := by
      rw [readText_congr hsame, hread] at hread'
      exact (Except.ok.inj hread').symm
    obtain rfl : properties' = properties := by
      rw [Settings.propertiesPath_of_file? hfile] at hproperties hproperties'
      rw [Properties.load_again h hdirectory hproperties'] at hproperties
      exact Except.ok.inj hproperties
    rw [hload', h.keepsDirectories.working]

end Request

/-! ## Running again -/

/-- Nothing was written to but what there was to write to. -/
theorem Effects.exists_written {before after : FileTree} {all tried : List Assignment}
    {ending : Ending} (h : Effects before all ending tried after) :
    ∃ made, Written before made after ∧ ∀ d ∈ made, d.path ∈ all.map Assignment.path := by
  have hdeposit : ∀ {assignments : List Assignment} {d},
      d ∈ assignments.map Assignment.deposit → d.path ∈ assignments.map Assignment.path := by
    intro assignments d hd
    obtain ⟨a, ha, rfl⟩ := List.mem_map.mp hd
    exact List.mem_map_of_mem ha
  cases h with
  | completed written => exact ⟨_, written, fun d hd => hdeposit hd⟩
  | refused split reached fails opening written =>
    refine ⟨_, written, fun d hd => ?_⟩
    rw [split, List.map_append]
    exact List.mem_append_left _ (hdeposit hd)
  | cut split reached fails storing cut written =>
    refine ⟨_, written, fun d hd => ?_⟩
    rw [split, List.map_append, List.map_cons]
    rcases List.mem_append.mp hd with hd | hd
    · exact List.mem_append_left _ (hdeposit hd)
    · obtain rfl := List.mem_singleton.mp hd
      exact List.mem_append_right _ List.mem_cons_self

namespace Plan

theorem tree_perform (plan : Plan) (out : FilePath) (tree : FileTree) :
    (plan.perform out tree).tree = (Outcome.record out plan.steps tree).1.tree := by
  rw [perform, ← Outcome.record_fst]
  cases (Outcome.record out plan.steps tree).1.ending <;> rfl

/-- Performing a plan once more changes nothing. -/
theorem get?_perform_again (plan : Plan) (out : FilePath) (tree : FileTree) (l : Location) :
    (plan.perform out (plan.perform out tree).tree).tree.get? l =
      (plan.perform out tree).tree.get? l := by
  rw [tree_perform, tree_perform]
  generalize hafter : (Outcome.record out plan.steps tree).1.tree = after
  have hkinds : SameKinds (Outcome.record out plan.steps tree).1.tree after := hafter ▸ .refl _
  obtain ⟨htried, hending, hagain⟩ := Outcome.record_again plan.steps hkinds
  have hfirst := Outcome.effects_record out plan.steps tree
  have hsecond := Outcome.effects_record out plan.steps after
  rw [hafter] at hfirst
  rw [htried] at hsecond
  obtain ⟨made, hwritten, hwritten'⟩ := hfirst.exists_made hsecond hending hagain
  exact hwritten.get?_again hwritten' hagain l

/-- Performing a plan writes to none of the files that a run reads. -/
theorem sparesSources_perform {build : Build} {conventions : Conventions} {mode : Mode}
    {selection : Selection} (out : FilePath) (tree : FileTree) :
    SparesSources tree ((ofBuild build conventions mode selection).perform out tree).tree := by
  rw [tree_perform]
  have heffects := Outcome.effects_record out (ofBuild build conventions mode selection).steps tree
  obtain ⟨made, hwritten, hpaths⟩ := heffects.exists_written
  apply hwritten.sparesSources
  intro d hd
  obtain ⟨a, ha, hpath⟩ := List.mem_map.mp (hpaths d hd)
  obtain ⟨file, hfile, rfl⟩ := List.mem_map.mp ha
  obtain ⟨name, hname, hapart⟩ := isApart_of_mem_files hfile
  rw [← hpath]
  exact ⟨name, FilePath.fileName?_div hname out, hapart⟩

end Plan

namespace Request

theorem tree_run_of_plan_error {request : Request} {tree : FileTree} {obstacle : Obstacle}
    (h : request.plan tree = .error obstacle) : (request.run tree).tree = tree := by
  rw [run, h]
  exact obstacle.tree_outcome tree

/-- What a run leaves, another run of the same request leaves as it is, however the first one
ended. -/
theorem get?_run_again (request : Request) (tree : FileTree) (l : Location) :
    (request.run (request.run tree).tree).tree.get? l = (request.run tree).tree.get? l := by
  cases hplan : request.plan tree with
  | error obstacle => rw [tree_run_of_plan_error hplan, tree_run_of_plan_error hplan]
  | ok plan =>
    cases hdry : request.dryRun with
    | true =>
      have hstay : (request.run tree).tree = tree := by
        rw [run, hplan]
        simp [hdry, Plan.rehearse]
      rw [hstay, hstay]
    | false =>
      obtain ⟨mode, build, hmode, hbuild, rfl⟩ := exists_of_plan_ok hplan
      rw [run_of_plan_ok hplan hdry]
      rcases build_again (Plan.sparesSources_perform request.outputDirectory tree) hbuild with
        hagain | ⟨failure, hagain⟩
      · rw [run_of_plan_ok (plan_of_build hmode hagain) hdry, Plan.get?_perform_again]
      · rw [tree_run_of_plan_error (by rw [Request.plan, hmode, hagain])]

end Request

end BuildChain
