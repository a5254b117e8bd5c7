import BuildChain.Proofs.Plan.Steps
import BuildChain.Proofs.Run.Sources
import BuildChain.Proofs.Run.Writing

/-! # Dry runs

A dry run shows section by section what a run of the same request tries to write, and changes
nothing. What it shows depends on the settings and the properties of the build, and on no other
file.
-/

namespace BuildChain

/-- A file as a dry run shows it. -/
structure Section where
  title : Text
  content : Text
  deriving DecidableEq, Repr

namespace Section

def lines (s : Section) : List Text :=
  [Step.rule, s.title, Step.rule, s.content, []]

/-- What a run that writes below the directory `out` is to write for a section. -/
def assignment (out : FilePath) (s : Section) : Assignment :=
  ⟨out / FilePath.ofText s.title, s.content⟩

/-- The sections of steps that a plan has. -/
def ofSteps (steps : List Step) : List Section :=
  (steps.filterMap Step.file?).map fun file => ⟨file.path.text, file.content⟩

end Section

/-- A dry run shows all that is to be written by a step, and nothing else. -/
def Step.IsShown : Step → Prop
  | warn _ => True
  | say _ => False
  | generate file => file.path.IsPlain

theorem Step.flatMap_shown {steps : List Step} (h : ∀ step ∈ steps, step.IsShown) :
    steps.flatMap shown = (Section.ofSteps steps).flatMap Section.lines := by
  induction steps with
  | nil => rfl
  | cons step steps ih =>
    obtain ⟨hstep, h⟩ := List.forall_mem_cons.mp h
    rw [List.flatMap_cons, ih h]
    cases step with
    | warn warning => rfl
    | say text => exact hstep.elim
    | generate file => rfl

/-- The title of a section says where its file goes. -/
theorem Outcome.assignments_eq_map {steps : List Step} (h : ∀ step ∈ steps, step.IsShown)
    (out : FilePath) :
    assignments out steps = (Section.ofSteps steps).map (Section.assignment out) := by
  simp only [assignments, Section.ofSteps, List.map_map]
  apply List.map_congr_left
  intro file hfile
  obtain ⟨step, hstep, hfile⟩ := List.mem_filterMap.mp hfile
  cases step with
  | generate file' =>
    obtain rfl : file' = file := Option.some.inj hfile
    have hpath : FilePath.ofText file'.path.text = file'.path := (h _ hstep).ofText_text
    simp only [Function.comp_apply, Section.assignment, hpath]
  | _ => cases hfile

namespace Plan

variable {mode : Mode}

theorem isShown_ofBuild (build : Build) (conventions : Conventions) (selection : Selection)
    (hmode : mode ≠ .report) :
    ∀ step ∈ (ofBuild build conventions mode selection).steps, step.IsShown := by
  apply forall_mem_steps
  · intro warning
    trivial
  · intro hreport
    exact absurd hreport hmode
  · rintro -
    have hdirectory : pluginDirectory.IsPlain := by
      simp [pluginDirectory, FilePath.IsPlain, FilePath.IsSegment]
    exact hdirectory.div (FilePath.isPlain_ofText _)
  · rintro project -
    have hname : (FilePath.ofSegment orderFileName).IsPlain := by
      intro s hs
      obtain rfl := List.mem_singleton.mp hs
      exact ⟨⟨by decide, by decide⟩, by decide⟩
    exact (FilePath.isPlain_ofText _).div hname

theorem sections_report (build : Build) (conventions : Conventions) (selection : Selection) :
    Section.ofSteps (ofBuild build conventions .report selection).steps = [] := by
  have hfiles := files_report build conventions selection
  rw [files] at hfiles
  rw [Section.ofSteps, hfiles, List.map_nil]

/-- The root name of a build is shown in warnings only. -/
theorem sections_anonymous (build : Build) (conventions : Conventions) (mode : Mode)
    (selection : Selection) :
    Section.ofSteps (ofBuild build.anonymous conventions mode selection).steps =
      Section.ofSteps (ofBuild build conventions mode selection).steps := by
  simp only [Section.ofSteps, ofBuild, List.filterMap_append, filterMap_exclusionSteps]
  cases mode <;> rfl

/-- Performs a plan, with a record of what it tries to write. -/
def record (out : FilePath) (plan : Plan) (tree : FileTree) : Outcome × List Assignment :=
  let (o, tried) := Outcome.record out plan.steps tree
  match o.ending with
  | .completed => ({ o with out := o.out ++ plan.closing.lines out }, tried)
  | _ => (o, tried)

theorem record_fst (out : FilePath) (plan : Plan) (tree : FileTree) :
    (plan.record out tree).1 = plan.perform out tree := by
  rw [perform, ← Outcome.record_fst, record]
  cases h : (Outcome.record out plan.steps tree).1.ending <;> simp [h]

theorem effects_record (out : FilePath) (plan : Plan) (tree : FileTree) :
    Effects tree (Outcome.assignments out plan.steps) (plan.record out tree).1.ending
      (plan.record out tree).2 (plan.record out tree).1.tree := by
  have heffects := Outcome.effects_record out plan.steps tree
  rw [record]
  cases h : (Outcome.record out plan.steps tree).1.ending <;> simpa [h] using heffects

theorem record_of_sections_nil {plan : Plan} (h : Section.ofSteps plan.steps = []) (out : FilePath)
    (tree : FileTree) : (plan.record out tree).2 = [] ∧ (plan.record out tree).1.tree = tree := by
  have hassignments : Outcome.assignments out plan.steps = [] := by
    rw [Section.ofSteps, List.map_eq_nil_iff] at h
    rw [Outcome.assignments, h, List.map_nil]
  have hrecord := Outcome.record_of_assignments_nil hassignments tree
  rw [record]
  cases h : (Outcome.record out plan.steps tree).1.ending <;> simpa [h] using hrecord

end Plan

/-! ## Requests -/

theorem Obstacle.tree_outcome (obstacle : Obstacle) (tree : FileTree) :
    (obstacle.outcome tree).tree = tree := by
  cases obstacle <;> rfl

theorem Obstacle.out_outcome (obstacle : Obstacle) (tree : FileTree) :
    (obstacle.outcome tree).out = [] := by
  cases obstacle <;> rfl

namespace Request

variable {request : Request} {tree : FileTree} {plan : Plan}

/-- What a dry run of the request shows. -/
def sections (request : Request) (tree : FileTree) : List Section :=
  match request.plan tree with
  | .error _ => []
  | .ok plan => Section.ofSteps plan.steps

/-- What a run of the request is to write. -/
def assignments (request : Request) (tree : FileTree) : List Assignment :=
  (request.sections tree).map (Section.assignment request.outputDirectory)

/-- Runs the request, with a record of what it tries to write. -/
def record (request : Request) (tree : FileTree) : Outcome × List Assignment :=
  match request.plan tree with
  | .error obstacle => (obstacle.outcome tree, [])
  | .ok plan =>
    if request.dryRun then (plan.rehearse tree, []) else plan.record request.outputDirectory tree

/-- The run is not to change anything: it is a dry run or a report, it is refused, or the settings
or properties cannot be read. -/
def IsInert (request : Request) (tree : FileTree) : Prop :=
  request.dryRun = true ∨ request.mode = Mode.report.text ∨
    (request.run tree).ending = .exited 1 ∨
    ∃ settings failure, Settings.file? tree request.directory = some settings ∧
      Build.load tree settings = .error failure

theorem record_fst (request : Request) (tree : FileTree) :
    (request.record tree).1 = request.run tree := by
  rw [record, run]
  cases request.plan tree with
  | error obstacle => rfl
  | ok plan =>
    simp only
    split
    · rfl
    · exact Plan.record_fst _ _ _

theorem exists_of_plan_ok (h : request.plan tree = .ok plan) :
    ∃ mode build, Mode.ofText? request.mode = some mode ∧ request.build tree = .ok build ∧
      plan = Plan.ofBuild build (request.conventions build) mode request.selection := by
  unfold Request.plan at h
  split at h
  · cases h
  next mode hmode =>
  split at h
  · cases h
  next build hbuild =>
  exact ⟨mode, build, hmode, hbuild, (Except.ok.inj h).symm⟩

theorem plan_of_build {mode : Mode} {build : Build} (hmode : Mode.ofText? request.mode = some mode)
    (hbuild : request.build tree = .ok build) :
    request.plan tree =
      .ok (Plan.ofBuild build (request.conventions build) mode request.selection) := by
  rw [Request.plan, hmode, hbuild]

theorem run_of_plan_ok (h : request.plan tree = .ok plan) (hdry : request.dryRun = false) :
    request.run tree = plan.perform request.outputDirectory tree := by
  simp [run, h, hdry]

theorem build_of_plan_unreadable {failure : Failure}
    (h : request.plan tree = .error (.unreadable failure)) :
    request.build tree = .error (.unreadable failure) := by
  unfold Request.plan at h
  split at h
  · cases h
  split at h
  · next obstacle hbuild => rw [hbuild, Except.error.inj h]
  · cases h

theorem exists_of_build_unreadable {failure : Failure}
    (h : request.build tree = .error (.unreadable failure)) :
    ∃ settings, Settings.file? tree request.directory = some settings ∧
      Build.load tree settings = .error failure := by
  unfold Request.build at h
  split at h
  · cases h
  next settings hfile =>
  split at h
  · next failure' hload =>
    obtain rfl := Obstacle.unreadable.inj (Except.error.inj h)
    exact ⟨settings, hfile, hload⟩
  · cases h

theorem isInert_of_plan_error {obstacle : Obstacle} (h : request.plan tree = .error obstacle) :
    request.IsInert tree := by
  have hrun : request.run tree = obstacle.outcome tree := by rw [run, h]
  right; right
  cases obstacle with
  | unknownMode mode =>
    left
    rw [hrun]
    rfl
  | noSettings directory =>
    left
    rw [hrun]
    rfl
  | unreadable failure =>
    right
    obtain ⟨settings, hfile, hload⟩ := exists_of_build_unreadable (build_of_plan_unreadable h)
    exact ⟨settings, failure, hfile, hload⟩

/-- Nothing stands in the way of a plan but what makes a run inert. -/
theorem mode_eq_report_of_plan_ok (h : request.plan tree = .ok plan) (hdry : request.dryRun = false)
    (hinert : request.IsInert tree) : request.mode = Mode.report.text := by
  have hrun := run_of_plan_ok h hdry
  rcases hinert with hdry' | hmode | hexited | ⟨settings, failure, hfile, hload⟩
  · rw [hdry] at hdry'
    cases hdry'
  · exact hmode
  · have heffects := plan.effects_record request.outputDirectory tree
    rw [Plan.record_fst, ← hrun, hexited] at heffects
    cases heffects
  · obtain ⟨mode, build, -, hbuild, -⟩ := exists_of_plan_ok h
    rw [Request.build, hfile] at hbuild
    simp [hload] at hbuild

theorem sections_of_plan_ok (h : request.plan tree = .ok plan) :
    request.sections tree = Section.ofSteps plan.steps := by
  rw [sections, h]

theorem isShown_of_plan_ok (h : request.plan tree = .ok plan)
    (hmode : request.mode ≠ Mode.report.text) : ∀ step ∈ plan.steps, step.IsShown := by
  obtain ⟨mode, build, hofText, -, rfl⟩ := exists_of_plan_ok h
  apply Plan.isShown_ofBuild
  rintro rfl
  exact hmode (Mode.eq_of_ofText?_eq_some hofText).symm

theorem sections_of_report (tree : FileTree) (hmode : request.mode = Mode.report.text) :
    request.sections tree = [] := by
  cases h : request.plan tree with
  | error obstacle => rw [sections, h]
  | ok plan =>
    obtain ⟨mode, build, hofText, -, rfl⟩ := exists_of_plan_ok h
    obtain rfl : mode = .report := by
      rw [hmode] at hofText
      exact (Option.some.inj hofText).symm
    rw [sections_of_plan_ok h, Plan.sections_report]

theorem out_run_of_dryRun (request : Request) (tree : FileTree)
    (hdry : request.dryRun = true) (hmode : request.mode ≠ Mode.report.text) :
    (request.run tree).out = (request.sections tree).flatMap Section.lines := by
  cases h : request.plan tree with
  | error obstacle =>
    rw [run, sections, h]
    exact obstacle.out_outcome tree
  | ok plan =>
    rw [run, sections_of_plan_ok h, h, ← Step.flatMap_shown (isShown_of_plan_ok h hmode)]
    simp [hdry, Plan.rehearse]

theorem sections_congr (request : Request) {after : FileTree}
    (h : ∀ path ∈ request.sources, FileTree.SameAt tree after path) :
    request.sections after = request.sections tree := by
  have hsections : ∀ tree, request.sections tree =
      (Mode.ofText? request.mode).elim [] fun mode =>
        ((request.build tree).toOption.map Build.anonymous).elim [] fun build =>
          Section.ofSteps
            (Plan.ofBuild build (request.conventions build) mode request.selection).steps := by
    intro tree
    rw [sections, plan]
    cases Mode.ofText? request.mode with
    | none => rfl
    | some mode =>
      cases request.build tree with
      | error obstacle => rfl
      | ok build => exact (Plan.sections_anonymous build _ mode _).symm
  rw [hsections, hsections, build_congr h]

/-- A run that is to change nothing tries to write nothing and leaves the files as they are. Any
other run tries to write, below its output directory, what a dry run of the same request shows,
in the same order. It writes all of it, or it fails at one file and writes what comes before it.
That file is as it was if it could not be opened, and else it holds a beginning of what was to be
written. What is shown depends neither on the output directory nor on any file but the settings and
the properties. -/
theorem effects_run (request : Request) (tree : FileTree) :
    (request.record tree).1 = request.run tree ∧
    (request.IsInert tree → (request.record tree).2 = [] ∧ (request.run tree).tree = tree) ∧
    (¬ request.IsInert tree →
      Effects tree (request.assignments tree) (request.run tree).ending (request.record tree).2
        (request.run tree).tree) ∧
    (request.mode ≠ Mode.report.text →
      ({ request with dryRun := true }.run tree).out =
        (request.sections tree).flatMap Section.lines) ∧
    ∀ output after, (∀ path ∈ request.sources, FileTree.SameAt tree after path) →
      { request with output := output }.sections after = request.sections tree := by
  refine ⟨record_fst request tree, ?_, ?_, ?_, ?_⟩
  · intro hinert
    rw [← record_fst]
    cases h : request.plan tree with
    | error obstacle =>
      rw [record, h]
      exact ⟨rfl, obstacle.tree_outcome tree⟩
    | ok plan =>
      rw [record, h]
      cases hdry : request.dryRun with
      | true => exact ⟨rfl, rfl⟩
      | false =>
        have hreport := sections_of_report tree (mode_eq_report_of_plan_ok h hdry hinert)
        rw [sections_of_plan_ok h] at hreport
        exact Plan.record_of_sections_nil hreport _ tree
  · intro hactive
    cases h : request.plan tree with
    | error obstacle => exact absurd (isInert_of_plan_error h) hactive
    | ok plan =>
      have hdry : request.dryRun = false := by
        rw [Bool.eq_false_iff]
        exact fun hdry => hactive (Or.inl hdry)
      have hmode : request.mode ≠ Mode.report.text := fun hmode => hactive (Or.inr (Or.inl hmode))
      have hrecord : request.record tree = plan.record request.outputDirectory tree := by
        simp [record, h, hdry]
      rw [← record_fst, hrecord, assignments, sections_of_plan_ok h,
        ← Outcome.assignments_eq_map (isShown_of_plan_ok h hmode)]
      exact plan.effects_record _ tree
  · intro hmode
    exact out_run_of_dryRun { request with dryRun := true } tree rfl hmode
  · intro output after hsame
    exact sections_congr { request with output := output } hsame

/-- Scripts for three projects. -/
def threeScripts : Request where
  directory := .ofSegment "build"
  output := none
  dryRun := false
  mode := "static"
  selection := .all
  excluded := some []
  group := none

/-- A build with three projects, where a file is in the way of the second. -/
def blockedTree : FileTree :=
  ⟨[], [(["build"], .directory),
    (["build", "settings.gradle"], .file (Text.encode "include 'a', 'b', 'c'")),
    (["build", "b"], .file [])], {}⟩

theorem effects_run_blocked :
    ¬ threeScripts.IsInert blockedTree ∧
    Effects blockedTree (threeScripts.assignments blockedTree)
      (threeScripts.run blockedTree).ending (threeScripts.record blockedTree).2
      (threeScripts.run blockedTree).tree ∧
    (threeScripts.run blockedTree).ending =
      .failed (.file ⟨.occupied, ⟨.working, ["build", "b"]⟩⟩) ∧
    (threeScripts.record blockedTree).2.map (·.path.text) =
      ["build/a/test-order.gradle.kts", "build/b/test-order.gradle.kts"] ∧
    (threeScripts.sections blockedTree).map Section.title =
      ["a/test-order.gradle.kts", "b/test-order.gradle.kts", "c/test-order.gradle.kts"] := by
  have hrun : (threeScripts.run blockedTree).ending =
        .failed (.file ⟨.occupied, ⟨.working, ["build", "b"]⟩⟩) ∧
      (threeScripts.record blockedTree).2.map (·.path.text) =
        ["build/a/test-order.gradle.kts", "build/b/test-order.gradle.kts"] ∧
      (threeScripts.sections blockedTree).map Section.title =
        ["a/test-order.gradle.kts", "b/test-order.gradle.kts", "c/test-order.gradle.kts"] := by
    decide +kernel
  have hactive : ¬ threeScripts.IsInert blockedTree := by
    rintro (hdry | hmode | hexited | ⟨settings, failure, hfile, hload⟩)
    · cases hdry
    · exact absurd hmode (by decide)
    · cases hrun.1.symm.trans hexited
    · have hfound : Settings.file? blockedTree threeScripts.directory =
          some ⟨.working, ["build", "settings.gradle"]⟩ := by decide +kernel
      obtain rfl := Option.some.inj (hfile.symm.trans hfound)
      have hloaded : (Build.load blockedTree
          ⟨.working, ["build", "settings.gradle"]⟩).isOk = true := by decide +kernel
      rw [hload] at hloaded
      cases hloaded
  obtain ⟨-, -, heffects, -, -⟩ := effects_run threeScripts blockedTree
  exact ⟨hactive, heffects hactive, hrun⟩

/-- The plugin for a group with a byte that encodes no character. -/
def strayGroup : Request where
  directory := .ofSegment "build"
  output := none
  dryRun := false
  mode := "plugin"
  selection := .all
  excluded := some []
  group := some (.lone 0x4ff :: "/../acme")

/-- A build with a plugin from an earlier run. -/
def generatedTree : FileTree :=
  ⟨[], [(["build"], .directory),
    (["build", "settings.gradle"], .file (Text.encode "include 'a'")),
    (["build", "build-logic"], .directory),
    (["build", "build-logic", "src"], .directory),
    (["build", "build-logic", "src", "main"], .directory),
    (["build", "build-logic", "src", "main", "kotlin"], .directory),
    (["build", "build-logic", "src", "main", "kotlin", "acme.conventions.gradle.kts"],
      .file (Text.encode "// old"))], {}⟩

/-- The only write fails, and the file has lost what it held. -/
theorem effects_run_emptied :
    let plugin : FilePath :=
      ⟨.working, ["build", "build-logic", "src", "main", "kotlin", "acme.conventions.gradle.kts"]⟩
    let outcome := strayGroup.run generatedTree
    (∃ error path, outcome.ending = .failed (.file ⟨.unencodable error, path⟩) ∧
      (strayGroup.record generatedTree).2.map Assignment.path = [path]) ∧
    generatedTree.read plugin = .ok (Text.encode "// old") ∧
    outcome.tree.read plugin = .ok [] := by
  intro plugin outcome
  have hrun : outcome.ending =
        .failed (.file ⟨.unencodable ⟨.lone 0x4ff, 127, 127⟩, ⟨.working, ["build", "build-logic",
          "src", "main", "kotlin", [.lone 0x4ff], "..", "acme.conventions.gradle.kts"]⟩⟩) ∧
      (strayGroup.record generatedTree).2.map Assignment.path = [⟨.working, ["build", "build-logic",
        "src", "main", "kotlin", [.lone 0x4ff], "..", "acme.conventions.gradle.kts"]⟩] ∧
      generatedTree.read plugin = .ok (Text.encode "// old") ∧
      outcome.tree.read plugin = .ok [] := by
    decide +kernel
  obtain ⟨hending, hrecord, hread⟩ := hrun
  exact ⟨⟨_, _, hending, hrecord⟩, hread⟩

end Request

end BuildChain
