import BuildChain.Proofs.Run.Scripts

/-! # Where the plugin is written

A run that generates the plugin writes one file. The file is named after the group, which may be
any text, and a slash in it is read as one in a path. So the file is in the directory that the run
names, under the name of the group, if and only if the group has no slash.
-/

namespace BuildChain

open FileTree

/-! ## What a run that completes prints -/

/-- The lines that a step prints when it is carried out below the directory `out`. -/
def Step.announced (out : FilePath) : Step → List Text
  | warn _ => []
  | say text => [text]
  | generate file => ["  \u2713 " ++ (out / file.path).text]

theorem Outcome.out_ofSteps {out : FilePath} {steps : List Step} {tree : FileTree}
    (h : (ofSteps out steps tree).ending = .completed) :
    (ofSteps out steps tree).out = steps.flatMap (Step.announced out) := by
  induction steps generalizing tree with
  | nil => rfl
  | cons step steps ih =>
    cases step with
    | warn warning => exact ih h
    | say text => exact congrArg (text :: ·) (ih h)
    | generate file =>
      rw [ofSteps] at h ⊢
      cases hwrite : tree.write (out / file.path) file.content with
      | mk after error =>
        rw [hwrite] at h
        cases error with
        | some e => cases h
        | none => exact congrArg (("  \u2713 " ++ (out / file.path).text) :: ·) (ih h)

theorem Plan.out_perform {plan : Plan} {out : FilePath} {tree : FileTree}
    (h : (plan.perform out tree).ending = .completed) :
    (plan.perform out tree).out =
      plan.steps.flatMap (Step.announced out) ++ plan.closing.lines out := by
  rcases Outcome.ending_ofSteps out plan.steps tree with hsteps | ⟨-, -, e, hsteps, -⟩
  · simp [perform, hsteps, Outcome.out_ofSteps hsteps]
  · simp [perform, hsteps] at h

/-! ## The plan of the plugin -/

namespace Plan

variable {build : Build} {conventions : Conventions} {selection : Selection}

theorem assignments_plugin (out : FilePath) :
    Outcome.assignments out (ofBuild build conventions .plugin selection).steps =
      [⟨out / (pluginFile conventions).path, Script.Plugin.text conventions⟩] := by
  rw [Outcome.assignments, ofBuild, List.filterMap_append, filterMap_exclusionSteps]
  rfl

/-- Nothing but the plugin is announced, whatever is warned of. -/
theorem announced_plugin (out : FilePath) :
    (ofBuild build conventions .plugin selection).steps.flatMap (Step.announced out) =
      ["  \u2713 " ++ (out / (pluginFile conventions).path).text] := by
  have hwarnings : (exclusionSteps build conventions).flatMap (Step.announced out) = [] := by
    rw [List.flatMap_eq_nil_iff]
    intro step hstep
    obtain ⟨name, -, rfl⟩ := List.mem_map.mp hstep
    rfl
  rw [ofBuild, List.flatMap_append, hwarnings]
  rfl

/-- What the file of the plugin is called. -/
def pluginFileName (group : Text) : Text :=
  group ++ ".conventions.gradle.kts"

theorem pluginFileName_ne {t : Text} (h : t.length ≤ 2) (group : Text) :
    pluginFileName group ≠ t := by
  rintro rfl
  simp [pluginFileName] at h

theorem isSegment_pluginFileName {group : Text} (h : .char '/' ∉ group) :
    FilePath.IsSegment (pluginFileName group) := by
  refine ⟨⟨pluginFileName_ne (by decide) group, ?_⟩, pluginFileName_ne (by decide) group⟩
  simp [pluginFileName, h]

end Plan

/-! ## The file of the plugin -/

/-- The path leads to what has the given name in the directory. -/
def FileTree.LeadsInto (tree : FileTree) (path directory : FilePath) (name : Text) : Prop :=
  ∃ above, tree.locate directory = .ok above ∧ tree.locate path = .ok (above ++ [name])

/-- A path that ends in the name for a group leads into the directory before it, under that name,
if and only if the group has no slash. -/
theorem FileTree.leadsInto_pluginFileName_iff {tree : FileTree} {directory : FilePath}
    {group : Text} {l : Location}
    (hlocate : tree.locate (directory / .ofText (Plan.pluginFileName group)) = .ok l) :
    tree.LeadsInto (directory / .ofText (Plan.pluginFileName group)) directory
      (Plan.pluginFileName group) ↔ .char '/' ∉ group := by
  constructor
  · rintro ⟨above, -, hleads⟩ hslash
    obtain ⟨stem, hname⟩ := FilePath.exists_fileName?_ofText group
      (".conventions.gradle.kts" : Text) (by decide) (by decide)
    have hlast := getLast?_of_locate hleads (FilePath.fileName?_div hname directory)
      (Plan.pluginFileName_ne (by decide) stem)
    rw [List.getLast?_concat, Option.some_inj] at hlast
    -- the name would be a segment of a path, which no slash is in
    have hsegment := FilePath.isPlain_ofText _ _ (List.mem_of_getLast? hname)
    rw [← hlast] at hsegment
    exact hsegment.1.2 (List.mem_append_left _ hslash)
  · intro hslash
    rw [FilePath.ofText_eq_ofSegment (Plan.isSegment_pluginFileName hslash)] at hlocate ⊢
    obtain ⟨-, above, habove, -, rfl⟩ := locate_div_ofSegment.mp hlocate
    refine ⟨above, habove, ?_⟩
    rw [hlocate, Location.enter, if_neg (Plan.pluginFileName_ne (by decide) group)]

namespace Request

variable {request : Request} {tree : FileTree} {build : Build}

/-- A run that generates the plugin, and fails on no file, writes one file and names a directory
for it. The file is in that directory and has the name of the group if and only if the group has
no slash. Where the directory is does not matter if the group starts with one. -/
theorem run_plugin (hmode : request.mode = Mode.plugin.text) (hdry : request.dryRun = false)
    (hbuild : request.build tree = .ok build)
    (hfiles : ∀ e, (request.run tree).ending ≠ .failed (.file e)) :
    let conventions := request.conventions build
    let name := Plan.pluginFileName conventions.group
    let directory := request.outputDirectory / Plan.pluginDirectory
    let path := directory / .ofText name
    let after := (request.run tree).tree
    (request.run tree).ending = .completed ∧
    (request.run tree).out =
      ("  \u2713 " ++ path.text) ::
        (Closing.plugin conventions.group).lines request.outputDirectory ∧
    (request.record tree).2 = [⟨path, Script.Plugin.text conventions⟩] ∧
    after.read path = .ok (Text.encode (Script.Plugin.text conventions)) ∧
    (∀ l, after.locate path ≠ .ok l → Untouched tree after l) ∧
    (after.LeadsInto path directory name ↔ .char '/' ∉ conventions.group) ∧
    (conventions.group.head? = some '/' → path = .ofText name) := by
  intro conventions name directory path after
  have hplan : request.plan tree = .ok (.ofBuild build conventions .plugin request.selection) := by
    apply plan_of_build _ hbuild
    rw [hmode, Mode.ofText?_text]
  have hrun := run_of_plan_ok hplan hdry
  have hpath : request.outputDirectory / (Plan.pluginFile conventions).path = path :=
    (FilePath.join_assoc _ _ _).symm
  have heffects := (Plan.ofBuild build conventions .plugin request.selection).effects_record
    request.outputDirectory tree
  have hrecord : (Plan.ofBuild build conventions .plugin request.selection).record
      request.outputDirectory tree = request.record tree := by
    simp [Request.record, hplan, hdry]
  rw [hrecord, record_fst, Plan.assignments_plugin, hpath] at heffects
  obtain ⟨hcompleted, htried, hwritten⟩ := heffects.of_no_failure hfiles
  obtain ⟨l, hlocate⟩ := hwritten.located _ (List.mem_singleton_self _)
  refine ⟨hcompleted, ?_, htried, ?_, ?_, leadsInto_pluginFileName_iff hlocate, ?_⟩
  · rw [hrun] at hcompleted ⊢
    rw [Plan.out_perform hcompleted, Plan.announced_plugin, hpath]
    rfl
  · apply hwritten.read [] _ [] rfl
    simp
  · intro l hl
    apply hwritten.untouched
    intro d hd
    obtain rfl := List.mem_singleton.mp hd
    exact hl
  · intro hslash
    obtain ⟨rest, hgroup⟩ := List.head?_eq_some_iff.mp hslash
    have hname : name = .char '/' :: (rest ++ (".conventions.gradle.kts" : Text)) := by
      rw [← List.cons_append, ← hgroup]
      rfl
    change directory / .ofText name = .ofText name
    rw [hname, FilePath.div_ofText_of_slash]

/-- The plugin for the given group. -/
def pluginRun (group : Text) : Request where
  directory := .ofSegment "build"
  output := none
  dryRun := false
  mode := "plugin"
  selection := .all
  excluded := some []
  group := some group

/-- A build with one project. -/
def oneProject : FileTree :=
  ⟨[], [(["build"], .directory),
    (["build", "settings.gradle.kts"], .file (Text.encode "include(\"app\")"))], {}⟩

theorem run_plugin_acme :
    let request := pluginRun "org.acme"
    let build : Build := ⟨"build", [⟨":app", "app", "app"⟩], []⟩
    let name : Text := "org.acme.conventions.gradle.kts"
    let directory := request.outputDirectory / Plan.pluginDirectory
    request.mode = Mode.plugin.text ∧ request.dryRun = false ∧
    request.build oneProject = .ok build ∧
    (∀ e, (request.run oneProject).ending ≠ .failed (.file e)) ∧
    (request.run oneProject).tree.LeadsInto (directory / .ofText name) directory name := by
  intro request build name directory
  have hmode : request.mode = Mode.plugin.text := rfl
  obtain ⟨hbuild, hcompleted⟩ : request.build oneProject = .ok build ∧
      (request.run oneProject).ending = .completed := by
    decide +kernel
  have hfiles : ∀ e, (request.run oneProject).ending ≠ .failed (.file e) := by
    intro e
    rw [hcompleted]
    exact Ending.noConfusion
  obtain ⟨-, -, -, -, -, hleads, -⟩ := run_plugin hmode rfl hbuild hfiles
  exact ⟨hmode, rfl, hbuild, hfiles, hleads.mpr (by decide +kernel)⟩

/-- A run completes and names a directory, and the only file that it wrote is in another one. -/
theorem plugin_elsewhere :
    let outcome := (pluginRun "../acme").run oneProject
    outcome.ending = .completed ∧
    ("\n\u2705 Convention plugin generated in: build/build-logic/src/main/kotlin" : Text) ∈
      outcome.out ∧
    (changedFiles oneProject outcome.tree).map Prod.fst =
      [("build/build-logic/src/main/acme.conventions.gradle.kts" : Text)] := by
  decide +kernel

end Request

end BuildChain
