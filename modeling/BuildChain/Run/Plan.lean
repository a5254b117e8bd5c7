import BuildChain.Build
import BuildChain.FilePath
import BuildChain.Report
import BuildChain.Script.Order
import BuildChain.Script.Plugin

/-! # Plans

A plan is what a run is going to say and write, in order. It depends on the build, the
conventions and the kind of the run alone, and neither on where the files go nor on what is there.
-/

namespace BuildChain

inductive Mode
  | plugin
  | static
  | report
  deriving DecidableEq, Repr

namespace Mode

def all : List Mode :=
  [plugin, static, report]

def text : Mode → Text
  | plugin => "plugin"
  | static => "static"
  | report => "report"

def ofText? (t : Text) : Option Mode :=
  all.find? (·.text = t)

end Mode

/-- The projects that scripts are written for. -/
inductive Selection
  | all
  | only (name : Text)
  /-- One project was asked for, and no name was given for it. -/
  | unnamed
  deriving DecidableEq, Repr

inductive Warning
  /-- An excluded name that no project of the build has. -/
  | unknownExclusion (name rootName : Text)
  /-- The project asked for takes no part in the test order. -/
  | notOrdered (name : Text)
  | sharedName (name : Text) (paths : List Text)
  | sharedPredecessor (predecessor name : Text) (paths : List Text)
  deriving DecidableEq, Repr

def Warning.text : Warning → Text
  | unknownExclusion name rootName =>
    "WARNING: Excluded project '" ++ name ++ "' is not part of build '" ++ rootName ++ "'"
  | notOrdered name =>
    "WARNING: Project '" ++ name ++ "' is not part of the sequential test order " ++
      "(unknown or excluded), nothing to generate"
  | sharedName name paths =>
    "WARNING: Project name '" ++ name ++ "' is shared by " ++ Text.join ", " paths ++
      ", skipping its test order script"
  | sharedPredecessor predecessor name paths =>
    "WARNING: Predecessor '" ++ predecessor ++ "' of project '" ++ name ++ "' is shared by " ++
      Text.join ", " paths ++ ", skipping its test order script"

/-- A file to write, with its path below the output directory. -/
structure GeneratedFile where
  path : FilePath
  content : Text
  deriving DecidableEq, Repr

inductive Step
  | warn (warning : Warning)
  | say (text : Text)
  | generate (file : GeneratedFile)
  deriving DecidableEq, Repr

def Step.file? : Step → Option GeneratedFile
  | generate file => some file
  | _ => none

/-- What a run that wrote its files says at its end. -/
inductive Closing
  | silent
  | plugin (group : Text)
  | scripts (count : Nat)
  deriving DecidableEq, Repr

structure Plan where
  steps : List Step
  closing : Closing
  deriving DecidableEq, Repr

namespace Plan

/-- The files that the plan writes, in order. -/
def files (plan : Plan) : List GeneratedFile :=
  plan.steps.filterMap Step.file?

/-- The directory of plugin scripts. -/
def pluginDirectory : FilePath :=
  ⟨.working, ["build-logic", "src", "main", "kotlin"]⟩

def pluginFile (conventions : Conventions) : GeneratedFile where
  path := pluginDirectory / FilePath.ofText (conventions.group ++ ".conventions.gradle.kts")
  content := Script.Plugin.text conventions

def orderFileName : Text :=
  "test-order.gradle.kts"

/-- The constraints of a project, under the paths that the names stand for. -/
def orderConstraints (build : Build) (conventions : Conventions) (name : Text) :
    List Constraint :=
  TestOrder.constraints build.projectNames conventions.excluded build.pathOf? conventions.tasks
    name

/-- The script of a project that has its name to itself, as has its predecessor. -/
def orderFile (build : Build) (conventions : Conventions) (project : Project) :
    GeneratedFile where
  path := FilePath.ofText project.directory / FilePath.ofSegment orderFileName
  content := Script.Order.text project.name (orderConstraints build conventions project.name)

def predecessor? (build : Build) (conventions : Conventions) (name : Text) : Option Text :=
  TestOrder.predecessor? build.projectNames conventions.excluded name

/-- The predecessor that is not one project, with all the projects that have its name. -/
def sharedPredecessor? (build : Build) (conventions : Conventions) (name : Text) :
    Option (Text × List Project) :=
  (predecessor? build conventions name).bind fun predecessor =>
    match build.named predecessor with
    | [_] => none
    | sharers => some (predecessor, sharers)

/-- What the run does for one name of the test order. A script needs one project with the name,
and one with that of its predecessor. -/
def orderStep (build : Build) (conventions : Conventions) (name : Text) : Step :=
  match build.named name with
  | [project] =>
    match sharedPredecessor? build conventions name with
    | none => .generate (orderFile build conventions project)
    | some (predecessor, sharers) =>
      .warn (.sharedPredecessor predecessor name (sharers.map Project.path))
  | sharers => .warn (.sharedName name (sharers.map Project.path))

def ordered (build : Build) (conventions : Conventions) : List Text :=
  TestOrder.ordered build.projectNames conventions.excluded

/-- A plan that writes the scripts of the given names. -/
def scripts (build : Build) (conventions : Conventions) (names : List Text) : Plan :=
  let steps := names.map (orderStep build conventions)
  { steps := steps, closing := .scripts (steps.filterMap Step.file?).length }

/-- A plan that finds no project to write a script for. -/
def unmatched (name : Text) : Plan where
  steps := [.warn (.notOrdered name)]
  closing := .silent

def static (build : Build) (conventions : Conventions) : Selection → Plan
  | .all => scripts build conventions (ordered build conventions)
  | .only name =>
    if name ∈ ordered build conventions then scripts build conventions [name] else unmatched name
  | .unnamed => unmatched Text.absent

def plugin (conventions : Conventions) : Plan where
  steps := [.generate (pluginFile conventions)]
  closing := .plugin conventions.group

def report (build : Build) (conventions : Conventions) : Plan where
  steps := [.say (Report.text build.projectNames conventions.excluded)]
  closing := .silent

/-- The warnings that every kind of run starts with. -/
def exclusionSteps (build : Build) (conventions : Conventions) : List Step :=
  (TestOrder.ordered conventions.excluded build.projectNames).map fun name =>
    .warn (.unknownExclusion name build.rootName)

/-- What a run of the given kind does. Scripts are written for the selected projects. -/
def ofBuild (build : Build) (conventions : Conventions) (mode : Mode) (selection : Selection) :
    Plan :=
  let plan := match mode with
    | .plugin => plugin conventions
    | .static => static build conventions selection
    | .report => report build conventions
  { plan with steps := exclusionSteps build conventions ++ plan.steps }

end Plan

end BuildChain
