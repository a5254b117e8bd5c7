import BuildChain.Proofs.FileTree.Kinds
import BuildChain.Proofs.Plan.Reordering
import BuildChain.Proofs.Run.DryRun

/-! # Runs and the order of declarations

Two builds that declare the same projects, with the same names excluded, are run alike. The same
files are planned and the same lines are printed, and only a warning can show which project was
declared first.
-/

namespace BuildChain

open FileTree

/-- The lines are equal, or they are warnings that list the same projects. -/
inductive Warning.SameLine : Text → Text → Prop
  | refl (line : Text) : SameLine line line
  | warning {warning warning' : Warning} (h : warning.Reorders warning') :
      SameLine warning.text warning'.text

/-- The same lines were printed, up to the order of the projects in a warning, and the runs ended
in the same way. -/
structure Outcome.Reorders (o o' : Outcome) : Prop where
  out : o.out = o'.out
  err : List.Forall₂ Warning.SameLine o.err o'.err
  ending : o.ending = o'.ending

variable {steps steps' : List Step} {plan plan' : Plan} {tree tree' : FileTree}

theorem Step.flatMap_shown_eq (h : List.Forall₂ Step.Reorders steps steps') :
    steps.flatMap Step.shown = steps'.flatMap Step.shown := by
  induction h with
  | nil => rfl
  | cons hstep _ ih =>
    rw [List.flatMap_cons, List.flatMap_cons, ih]
    cases hstep <;> rfl

theorem Step.flatMap_warnings (h : List.Forall₂ Step.Reorders steps steps') :
    List.Forall₂ Warning.SameLine (steps.flatMap Step.warnings) (steps'.flatMap Step.warnings) := by
  induction h with
  | nil => exact .nil
  | cons hstep _ ih =>
    rw [List.flatMap_cons, List.flatMap_cons]
    cases hstep with
    | warn hwarning => exact .cons (.warning hwarning) ih
    | say text => exact ih
    | generate file => exact ih

/-- Steps that write nothing, or write where there are the same files and directories, have the
same outcome. -/
theorem Outcome.reorders_ofSteps (out : FilePath) (h : List.Forall₂ Step.Reorders steps steps')
    (hkinds : steps.filterMap Step.file? = [] ∨ SameKinds tree tree') :
    (ofSteps out steps tree).Reorders (ofSteps out steps' tree') := by
  induction h generalizing tree tree' with
  | nil => exact ⟨rfl, .nil, rfl⟩
  | @cons step step' steps steps' hstep _ ih =>
    cases hstep with
    | warn hwarning =>
      obtain ⟨hout, herr, hending⟩ := ih hkinds
      exact ⟨hout, .cons (.warning hwarning) herr, hending⟩
    | say text =>
      obtain ⟨hout, herr, hending⟩ := ih hkinds
      exact ⟨congrArg (text :: ·) hout, herr, hending⟩
    | generate file =>
      -- A write ends in the same way on both sides, and the trees are alike after it as well.
      have hkinds : SameKinds tree tree' := by
        apply hkinds.resolve_left
        simp [Step.file?]
      obtain ⟨herror, hwritten⟩ :=
        hkinds.write (out / file.path) file.content
      rw [ofSteps, ofSteps]
      generalize tree.write (out / file.path) file.content = result at herror hwritten ⊢
      generalize tree'.write (out / file.path) file.content = result' at herror hwritten ⊢
      obtain ⟨after, error⟩ := result
      obtain ⟨after', error'⟩ := result'
      obtain rfl : error' = error := herror
      cases error' with
      | some e => exact ⟨rfl, .nil, rfl⟩
      | none =>
        obtain ⟨hout, herr, hending⟩ := ih (Or.inr hwritten)
        exact ⟨congrArg (("  \u2713 " ++ (out / file.path).text) :: ·) hout, herr, hending⟩

namespace Plan.Reorders

theorem perform (h : plan.Reorders plan') (out : FilePath)
    (hkinds : plan.files = [] ∨ SameKinds tree tree') :
    (plan.perform out tree).Reorders (plan'.perform out tree') := by
  obtain ⟨hout, herr, hending⟩ := Outcome.reorders_ofSteps out h.steps hkinds
  rw [Plan.perform, Plan.perform, ← hending, ← h.closing]
  cases (Outcome.ofSteps out plan.steps tree).ending with
  | completed => exact ⟨congrArg (· ++ plan.closing.lines out) hout, herr, rfl⟩
  | exited code => exact ⟨hout, herr, hending⟩
  | failed failure => exact ⟨hout, herr, hending⟩

theorem rehearse (h : plan.Reorders plan') :
    (plan.rehearse tree).Reorders (plan'.rehearse tree') where
  out := Step.flatMap_shown_eq h.steps
  err := Step.flatMap_warnings h.steps
  ending := rfl

end Plan.Reorders

namespace Request

variable {request request' : Request} {source source' directoryName directoryName' : Text}
  {properties properties' : Entries}

theorem assignments_of_plan {plan : Plan} (h : request.plan tree = .ok plan) :
    request.assignments tree = (plan.files.map fun file => ⟨file.path.text, file.content⟩).map
      (Section.assignment request.outputDirectory) := by
  rw [assignments, sections_of_plan_ok h]
  rfl

/-- Settings scripts that declare the same projects in another order, and the same names excluded
in another order, make no difference to what a run plans. What a dry run or a report prints is the
same as well, up to the order in which a warning lists the projects that share a name, and so is
what any run prints that finds the same files and directories. -/
theorem reorders_run
    (hrequest : { request' with excluded := request.excluded } = request)
    (hbuild : request.build tree = .ok (Build.ofScript source directoryName properties))
    (hbuild' : request'.build tree' = .ok (Build.ofScript source' directoryName' properties'))
    (hroot : (Build.ofScript source directoryName properties).rootName =
      (Build.ofScript source' directoryName' properties').rootName)
    (hdeclares : Settings.SameDeclarations (Settings.stripComments source)
      (Settings.stripComments source'))
    (hconventions :
      (request.conventions (Build.ofScript source directoryName properties)).Reorders
        (request'.conventions (Build.ofScript source' directoryName' properties'))) :
    request.assignments tree = request'.assignments tree' ∧
    (request.dryRun = true ∨ request.mode = Mode.report.text ∨ SameKinds tree tree' →
      (request.run tree).Reorders (request'.run tree')) := by
  have hb := Build.reorders_ofScript hroot hdeclares
  have hdry : request'.dryRun = request.dryRun := by rw [← hrequest]
  have hmode : request'.mode = request.mode := by rw [← hrequest]
  have hselection : request'.selection = request.selection := by rw [← hrequest]
  have hout : request'.outputDirectory = request.outputDirectory := by
    rw [← hrequest]
    rfl
  cases hofText : Mode.ofText? request.mode with
  | none =>
    have hplan : request.plan tree = .error (.unknownMode request.mode) := by rw [plan, hofText]
    have hplan' : request'.plan tree' = .error (.unknownMode request.mode) := by
      rw [plan, hmode, hofText]
    constructor
    · rw [assignments, assignments, sections, sections, hplan, hplan']
      rfl
    · intro _
      rw [run, run, hplan, hplan']
      exact ⟨rfl, .cons (.refl _) .nil, rfl⟩
  | some mode =>
    have hplan := Plan.reorders_ofBuild hb hconventions mode request.selection
    have hfirst := plan_of_build hofText hbuild
    have hsecond := plan_of_build (hmode ▸ hofText) hbuild'
    rw [hselection] at hsecond
    constructor
    · rw [assignments_of_plan hfirst, assignments_of_plan hsecond, hplan.files_eq, hout]
    · intro hsame
      rw [run, run, hfirst, hsecond, hdry, hout]
      cases hrehearsed : request.dryRun with
      | true => exact hplan.rehearse
      | false =>
        apply hplan.perform
        rcases hsame with htrue | hreport | hkinds
        · rw [hrehearsed] at htrue
          cases htrue
        · rw [hreport] at hofText
          obtain rfl : .report = mode := Option.some.inj hofText
          exact Or.inl (Plan.files_report _ _ _)
        · exact Or.inr hkinds

/-- A dry run for scripts. -/
def rehearsal (excluded : List Text) : Request where
  directory := .ofSegment "build"
  output := none
  dryRun := true
  mode := "static"
  selection := .all
  excluded := some excluded
  group := none

/-- A build with the given settings script. -/
def treeOf (script : Text) : FileTree :=
  ⟨[], [(["build"], .directory), (["build", "settings.gradle"], .file (Text.encode script))], {}⟩

/-- Two projects share a name. The one above the first of them is not included itself. -/
def terseScript : Text :=
  "include 'b', 'a:x', 'b:x'"

/-- The same projects in another order, some of them included repeatedly. -/
def verboseScript : Text :=
  "include 'b:x'\ninclude ':a', 'b', 'a:x', ':b:x:'"

theorem reorders_run_shared :
    (rehearsal ["z", "a"]).assignments (treeOf terseScript) =
      (rehearsal ["a", "z", "a"]).assignments (treeOf verboseScript) ∧
    ((rehearsal ["z", "a"]).run (treeOf terseScript)).Reorders
      ((rehearsal ["a", "z", "a"]).run (treeOf verboseScript)) ∧
    ((rehearsal ["z", "a"]).run (treeOf terseScript)).err ≠
      ((rehearsal ["a", "z", "a"]).run (treeOf verboseScript)).err := by
  have hdeclares : Settings.SameDeclarations (Settings.stripComments terseScript)
      (Settings.stripComments verboseScript) := by
    constructor
    · intro path
      constructor
      · exact Settings.declares_of_includes (by decide +kernel)
      · exact Settings.declares_of_includes (by decide +kernel)
    · intro path _
      have hdirectories : Settings.directories (Settings.stripComments terseScript) =
          Settings.directories (Settings.stripComments verboseScript) := by decide +kernel
      rw [hdirectories]
  have hexcluded : ∀ name : Text, name ∈ [("z" : Text), "a"] ↔ name ∈ [("a" : Text), "z", "a"] := by
    intro name
    simp only [List.mem_cons, List.not_mem_nil, or_false]
    tauto
  have hterse : (rehearsal ["z", "a"]).build (treeOf terseScript) =
      .ok (Build.ofScript terseScript "build" []) := by decide +kernel
  have hverbose : (rehearsal ["a", "z", "a"]).build (treeOf verboseScript) =
      .ok (Build.ofScript verboseScript "build" []) := by decide +kernel
  have hroot : (Build.ofScript terseScript "build" []).rootName =
      (Build.ofScript verboseScript "build" []).rootName := by decide +kernel
  obtain ⟨hassignments, hrun⟩ := reorders_run rfl hterse hverbose hroot hdeclares
    (Conventions.reorders_load [] none hexcluded)
  exact ⟨hassignments, hrun (Or.inl rfl), by decide +kernel⟩

end Request

end BuildChain
