import BuildChain.Run.Outcome

/-! # Running

A request names a build and what to do with it. A run reads the build, plans, and performs or
rehearses the plan. It is refused if the mode is unknown or there is no build.
-/

namespace BuildChain

structure Request where
  /-- The directory of the build. -/
  directory : FilePath
  /-- The directory to write below, if it is not that of the build. -/
  output : Option FilePath
  dryRun : Bool
  mode : Text
  selection : Selection
  excluded : Option (List Text)
  group : Option Text
  deriving DecidableEq, Repr

/-- Why there is nothing to carry out. -/
inductive Obstacle
  | unknownMode (mode : Text)
  | noSettings (directory : FilePath)
  | unreadable (failure : Failure)
  deriving DecidableEq, Repr

/-- A run that ended at once with an error message. -/
def Obstacle.refuse (line : Text) (tree : FileTree) : Outcome :=
  { Outcome.ofTree tree with err := [line], ending := .exited 1 }

/-- What an obstacle leads to. The files stay as they are. -/
def Obstacle.outcome (tree : FileTree) : Obstacle → Outcome
  | unknownMode mode =>
    refuse ("ERROR: Unknown mode '" ++ mode ++ "', expected one of: " ++
      Text.join ", " (Mode.all.map Mode.text)) tree
  | noSettings directory =>
    refuse ("ERROR: No " ++ Text.join " or " Settings.fileNames ++ " found in " ++
      directory.text) tree
  | unreadable failure => Outcome.ofFailure failure tree

namespace Request

/-- The directory that generated files go below. -/
def outputDirectory (request : Request) : FilePath :=
  request.output.getD request.directory

/-- The conventions of a build in this run. -/
def conventions (request : Request) (build : Build) : Conventions :=
  Conventions.load build.properties request.group request.excluded

/-- The build at the directory of the request. -/
def build (request : Request) (tree : FileTree) : Except Obstacle Build :=
  match Settings.file? tree request.directory with
  | none => .error (.noSettings request.directory)
  | some settings =>
    match Build.load tree settings with
    | .error failure => .error (.unreadable failure)
    | .ok build => .ok build

/-- What the request leads to if nothing stands in its way. -/
def plan (request : Request) (tree : FileTree) : Except Obstacle Plan :=
  match Mode.ofText? request.mode with
  | none => .error (.unknownMode request.mode)
  | some mode =>
    match request.build tree with
    | .error obstacle => .error obstacle
    | .ok build => .ok (Plan.ofBuild build (request.conventions build) mode request.selection)

def run (request : Request) (tree : FileTree) : Outcome :=
  match request.plan tree with
  | .error obstacle => obstacle.outcome tree
  | .ok plan =>
    if request.dryRun then plan.rehearse tree else plan.perform request.outputDirectory tree

/-- The files that a run may read. -/
def sources (request : Request) : List FilePath :=
  (Settings.candidates request.directory).flatMap fun settings =>
    [settings, Build.propertiesPath settings]

/-- The files that a run may write. -/
def targets (request : Request) (tree : FileTree) : List FilePath :=
  match request.plan tree with
  | .error _ => []
  | .ok plan => plan.files.map fun file => request.outputDirectory / file.path

end Request

end BuildChain
