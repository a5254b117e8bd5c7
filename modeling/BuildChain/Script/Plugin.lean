import BuildChain.Conventions
import BuildChain.Script.Line

/-! # The convention plugin

The script that each project applies to take part in the conventions. It computes the test order
from the projects of the build, so it stays right when projects are added.
-/

namespace BuildChain.Script.Plugin

/-- A task that a test task waits for. -/
inductive Dependency
  | ownTask (task : Text)
  | predecessorTask (task : Text)
  deriving DecidableEq, Repr

/-- What the plugin declares for one test task of a project with a predecessor. -/
structure TaskBlock where
  task : Text
  runsAfter : List Dependency
  deriving DecidableEq, Repr

/-- The part of the plugin that orders the tests. -/
structure OrderBlock where
  /-- The names to drop. Without a list there is no step that drops names. -/
  dropped : Option (List Text)
  tasks : List TaskBlock
  deriving DecidableEq, Repr

def orderBlock (conventions : Conventions) : OrderBlock where
  dropped :=
    if conventions.excluded.isEmpty then none
    else some (TestOrder.sortDistinct conventions.excluded)
  tasks :=
    let test := conventions.tasks.test
    let hammer := conventions.tasks.hammer
    [{ task := test, runsAfter := [.predecessorTask test, .predecessorTask hammer] },
      { task := hammer, runsAfter := [.ownTask test, .predecessorTask hammer] }]

def Dependency.line : Dependency → Text
  | ownTask task => "mustRunAfter(" ++ call "tasks.named" task ++ ")"
  | predecessorTask task => call "mustRunAfter" (":$predecessorProject:" ++ task)

def TaskBlock.lines (b : TaskBlock) : List Text :=
  block (call "tasks.named" b.task) (b.runsAfter.map Dependency.line)

/-- The step that drops names, if there is one. -/
def dropLines : Option (List Text) → List Text
  | none => []
  | some names => ["        " ++ oneLine ".filter" ("it !in " ++ listOf names)]

/-- The lines that take the names of all projects, up to the step that drops some. -/
def namesLines : List Text := [
  "val sequentialTestProjects =",
  "    rootProject.subprojects",
  "        .map \x7b it.name \x7d"]

/-- The lines that sort the names and find the project among them. -/
def indexLines : List Text := [
  "        .sorted()",
  "val sequentialTestIndex = sequentialTestProjects.indexOf(name)",
  []]

def predecessorLine : Text :=
  "val predecessorProject = sequentialTestProjects[sequentialTestIndex - 1]"

def OrderBlock.lines (b : OrderBlock) : List Text :=
  namesLines ++ dropLines b.dropped ++ indexLines ++
    block "if (sequentialTestIndex > 0)"
      (predecessorLine :: b.tasks.flatMap TaskBlock.lines) ++ [[]]

def pluginLines (plugins : List Text) : List Text :=
  block "plugins" (plugins.map (call "id")) ++ [[]]

def groupLines (group : Text) : List Text :=
  ["group = " ++ literal group, []]

def versionLines : Option Text → List Text
  | none | some [] => []
  | some path =>
    [oneLine "javaModuleDependencies" (call "versionsFromConsistentResolution" path), []]

def extensionLines (extension : Text × Text) : List Text :=
  block (call "configurations.getByName" extension.1)
    ["extendsFrom(" ++ call "configurations.getByName" extension.2 ++ ")"] ++ [[]]

def gitLines (keys : List Text) : List Text :=
  if keys.isEmpty then [] else [oneLine "gitProperties" ("keys = " ++ listOf keys), []]

def lines (conventions : Conventions) : List Text :=
  pluginLines conventions.plugins ++
  groupLines conventions.group ++
  versionLines conventions.versionsFrom ++
  conventions.extensions.flatMap extensionLines ++
  gitLines conventions.gitKeys ++
  ("// Remove the following once '" ++ conventions.tasks.test ++
    "' tasks are allowed to run in parallel") ::
  (orderBlock conventions).lines

/-- The script of the convention plugin. -/
def text (conventions : Conventions) : Text :=
  Text.ofLines (lines conventions)

end BuildChain.Script.Plugin
