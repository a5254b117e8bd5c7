import BuildChain.Proofs.Plan.Selected
import BuildChain.Proofs.Run.Rerun
import BuildChain.Proofs.Script.OrderText
import BuildChain.Proofs.Text.Utf8

/-! # Which scripts are kept

A script goes to the directory of its project. Where several projects lead to one file, it holds
the script of the last of them in the test order after the run, and those of the others are lost.
-/

namespace BuildChain

open FileTree Plan

/-- A path holds what was assigned to it, or what another path that leads to the same file was
assigned later on. -/
theorem Written.read_or {α : Type} {before after : FileTree} {items earlier later : List α}
    {item : α} {assign : α → Assignment}
    (h : Written before ((items.map assign).map Assignment.deposit) after)
    (hsplit : items = earlier ++ item :: later) :
    ((∀ other ∈ later, after.locate (assign other).path ≠ after.locate (assign item).path) ∧
      after.read (assign item).path = .ok (Text.encode (assign item).content)) ∨
    ∃ last ∈ later, after.locate (assign last).path = after.locate (assign item).path ∧
      after.read (assign item).path = .ok (Text.encode (assign last).content) := by
  rw [List.map_map] at h
  have heq : items.map (Assignment.deposit ∘ assign) =
      earlier.map (Assignment.deposit ∘ assign) ++
        (assign item).deposit :: later.map (Assignment.deposit ∘ assign) := by
    simp [hsplit]
  obtain ⟨front, last, back, htail, hlocate, hback, hread⟩ := h.exists_read heq
  cases front with
  | nil =>
    obtain ⟨rfl, rfl⟩ := List.cons.inj htail
    left
    exact ⟨fun other hother => hback _ (List.mem_map_of_mem hother), hread⟩
  | cons a front =>
    obtain ⟨-, htail⟩ := List.cons.inj htail
    have hlast : last ∈ later.map (Assignment.deposit ∘ assign) := by
      rw [htail]
      simp
    obtain ⟨item', hitem', rfl⟩ := List.mem_map.mp hlast
    right
    exact ⟨item', hitem', hlocate, hread⟩

namespace Plan

variable {build : Build} {conventions : Conventions} {selection : Selection} {out : FilePath}
  {project p q : Project}

theorem named_of_mem_scriptedOf (h : project ∈ scriptedOf build conventions selection) :
    build.named project.name = [project] := by
  obtain ⟨name, -, hscript⟩ := List.mem_filterMap.mp h
  have hnamed := (scriptProject?_eq_some_iff.mp hscript).1
  obtain rfl := Build.name_of_named hnamed
  exact hnamed

/-- No two projects have the same script. -/
theorem scriptAt_inj (hb : build.IsNamed) (hp : p ∈ scriptedOf build conventions selection)
    (hq : q ∈ scriptedOf build conventions selection) :
    (scriptAt build conventions out p).content = (scriptAt build conventions out q).content ↔
      p = q := by
  constructor
  · intro h
    have hp := named_of_mem_scriptedOf hp
    have hq := named_of_mem_scriptedOf hq
    have hcolon : ∀ {project}, build.named project.name = [project] → .char ':' ∉ project.name := by
      intro project hnamed
      exact colon_notMem_of_mem_names hb (Build.named_ne_nil_iff.mp (by simp [hnamed]))
    have hname : p.name = q.name := Script.Order.name_of_text_eq (hcolon hp) (hcolon hq) h
    rw [hname, hq] at hp
    exact (List.singleton_inj.mp hp).symm
  · rintro rfl
    rfl

theorem nodup_scriptedOf (build : Build) (conventions : Conventions) (selection : Selection) :
    (scriptedOf build conventions selection).Nodup := by
  apply (TestOrder.nodup_of_pairwise (pairwise_targets build conventions selection)).filterMap
  intro name name' project hname hname'
  rw [← Build.name_of_named (scriptProject?_eq_some_iff.mp hname).1]
  exact Build.name_of_named (scriptProject?_eq_some_iff.mp hname').1

theorem written_perform {plan : Plan} {tree : FileTree}
    (h : (plan.perform out tree).ending = .completed) :
    Written tree ((Outcome.assignments out plan.steps).map Assignment.deposit)
      (plan.perform out tree).tree := by
  have heffects := plan.effects_record out tree
  rw [record_fst, h] at heffects
  generalize (plan.record out tree).2 = tried at heffects
  cases heffects with
  | completed written => exact written

end Plan

namespace Request

variable {request : Request} {tree : FileTree} {build : Build}

theorem isNamed_of_build (h : request.build tree = .ok build) : build.IsNamed := by
  obtain ⟨settings, -, hload⟩ := build_eq_ok_iff.mp h
  obtain ⟨source, properties, -, -, rfl⟩ := Build.load_eq_ok_iff.mp hload
  exact Build.isNamed_ofScript source _ properties

/-- After a run that wrote scripts, the path of each project leads to the script of a project with
the same path, and to its own unless such a project comes after it in the test order. So no script
is lost if and only if the projects have files of their own. -/
theorem read_scripts (hmode : request.mode = Mode.static.text) (hdry : request.dryRun = false)
    (hbuild : request.build tree = .ok build)
    (hcompleted : (request.run tree).ending = .completed) :
    let after := (request.run tree).tree
    let projects := scriptedOf build (request.conventions build) request.selection
    let script := scriptAt build (request.conventions build) request.outputDirectory
    (∀ project ∈ projects, ∃ last ∈ projects,
      after.locate (script last).path = after.locate (script project).path ∧
      after.read (script project).path = .ok (Text.encode (script last).content)) ∧
    (∀ earlier project later, projects = earlier ++ project :: later →
      (after.read (script project).path = .ok (Text.encode (script project).content) ↔
        ∀ other ∈ later, after.locate (script other).path ≠ after.locate (script project).path)) ∧
    ((∀ project ∈ projects,
        after.read (script project).path = .ok (Text.encode (script project).content)) ↔
      ∀ p ∈ projects, ∀ q ∈ projects,
        after.locate (script p).path = after.locate (script q).path → p = q) := by
  intro after projects script
  have hrun : request.run tree = (ofBuild build (request.conventions build) .static
      request.selection).perform request.outputDirectory tree := by
    have hofText : Mode.ofText? request.mode = some .static := by
      rw [hmode, Mode.ofText?_text]
    exact run_of_plan_ok (plan_of_build hofText hbuild) hdry
  have hwritten : Written tree ((projects.map script).map Assignment.deposit) after := by
    rw [hrun] at hcompleted
    have hwritten := written_perform hcompleted
    rwa [assignments_static, ← hrun] at hwritten
  have hinj : ∀ {p q}, p ∈ projects → q ∈ projects →
      Text.encode (script p).content = Text.encode (script q).content → p = q := by
    intro p q hp hq h
    exact (scriptAt_inj (isNamed_of_build hbuild) hp hq).mp (Text.encode_inj.mp h)
  refine ⟨?_, ?_, ?_⟩
  · intro project hproject
    obtain ⟨earlier, later, hsplit⟩ := List.append_of_mem hproject
    rcases hwritten.read_or hsplit with ⟨-, hread⟩ | ⟨last, hlast, hlocate, hread⟩
    · exact ⟨project, hproject, rfl, hread⟩
    · exact ⟨last, by simp [hsplit, hlast], hlocate, hread⟩
  · intro earlier project later hsplit
    rcases hwritten.read_or hsplit with ⟨hother, hread⟩ | ⟨last, hlast, hlocate, hread⟩
    · exact iff_of_true hread hother
    · apply iff_of_false
      · rw [hread]
        intro hown
        -- Scripts tell whose they are, so this project would have to come after itself.
        obtain rfl : last = project :=
          hinj (by simp [hsplit, hlast]) (by simp [hsplit]) (Except.ok.inj hown)
        have hnodup : projects.Nodup := nodup_scriptedOf ..
        rw [hsplit] at hnodup
        exact (List.nodup_cons.mp hnodup.of_append_right).1 hlast
      · intro hother
        exact hother last hlast hlocate
  · constructor
    · intro hkept p hp q hq hlocate
      apply hinj hp hq
      have hreadp := hkept p hp
      rw [read_eq_ok_iff, hlocate, ← read_eq_ok_iff, hkept q hq] at hreadp
      exact (Except.ok.inj hreadp).symm
    · intro hdistinct project hproject
      obtain ⟨earlier, later, hsplit⟩ := List.append_of_mem hproject
      rcases hwritten.read_or hsplit with ⟨-, hread⟩ | ⟨last, hlast, hlocate, hread⟩
      · exact hread
      · obtain rfl := hdistinct last (by simp [hsplit, hlast]) project hproject hlocate
        exact hread

/-- A build with three projects, of which the second is moved to the directory of the first. -/
def sharedDirectory : FileTree :=
  ⟨[], [(["build"], .directory), (["build", "settings.gradle"], .file (Text.encode
    "include 'app', 'lib', 'web'\nproject(':lib').projectDir = file('app')"))], {}⟩

def app : Project := ⟨":app", "app", "app"⟩

def lib : Project := ⟨":lib", "lib", "app"⟩

def web : Project := ⟨":web", "web", "web"⟩

/-- The build in that tree. -/
def sharedBuild : Build :=
  ⟨"build", [app, lib, web], []⟩

/-- The script of a project in that build. -/
def sharedScript (project : Project) : Assignment :=
  scriptAt sharedBuild (threeScripts.conventions sharedBuild) threeScripts.outputDirectory project

theorem read_scripts_shared :
    threeScripts.mode = Mode.static.text ∧ threeScripts.dryRun = false ∧
    threeScripts.build sharedDirectory = .ok sharedBuild ∧
    (threeScripts.run sharedDirectory).ending = .completed ∧
    (threeScripts.run sharedDirectory).tree.read (sharedScript app).path ≠
      .ok (Text.encode (sharedScript app).content) ∧
    (threeScripts.run sharedDirectory).tree.read (sharedScript web).path =
      .ok (Text.encode (sharedScript web).content) := by
  obtain ⟨hbuild, hcompleted, hprojects, hsame⟩ :
      threeScripts.build sharedDirectory = .ok sharedBuild ∧
      (threeScripts.run sharedDirectory).ending = .completed ∧
      scriptedOf sharedBuild (threeScripts.conventions sharedBuild) .all = [app, lib, web] ∧
      (threeScripts.run sharedDirectory).tree.locate (sharedScript lib).path =
        (threeScripts.run sharedDirectory).tree.locate (sharedScript app).path := by
    decide +kernel
  have hmode : threeScripts.mode = Mode.static.text := rfl
  obtain ⟨-, hkept, -⟩ := read_scripts hmode rfl hbuild hcompleted
  refine ⟨hmode, rfl, hbuild, hcompleted, ?_, ?_⟩
  · rw [ne_eq, sharedScript, hkept [] app [lib, web] hprojects]
    intro hother
    exact hother lib (by simp) hsame
  · rw [sharedScript, hkept [app, lib] web [] hprojects]
    simp

/-- The run completes, and the script of the first project does not survive it. -/
theorem script_lost :
    (threeScripts.run sharedDirectory).ending = .completed ∧
    app ∈ scriptedOf sharedBuild (threeScripts.conventions sharedBuild) .all ∧
    (threeScripts.run sharedDirectory).tree.read (sharedScript app).path =
      .ok (Text.encode (sharedScript lib).content) ∧
    (sharedScript app).content ≠ (sharedScript lib).content := by
  decide +kernel

end Request

end BuildChain
