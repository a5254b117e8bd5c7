import BuildChain.Table
import BuildChain.ProjectPath

/-! # Builds

A build has a root name, projects in the order of their declaration, and properties.
-/

namespace BuildChain

structure Project where
  path : Text
  name : Text
  /-- The directory, relative to that of the root project. -/
  directory : Text
  deriving DecidableEq, Repr

structure Build where
  rootName : Text
  projects : List Project
  properties : Entries
  deriving DecidableEq, Repr

namespace Build

/-- The names of all projects, one for each project, so a shared name occurs repeatedly. -/
def projectNames (build : Build) : List Text :=
  build.projects.map Project.name

/-- The first project with the name. -/
def find? (name : Text) (build : Build) : Option Project :=
  build.projects.find? (·.name = name)

/-- The projects that share the name. -/
def named (name : Text) (build : Build) : List Project :=
  build.projects.filter (·.name = name)

/-- The path of the one project with the name, if there is exactly one. -/
def pathOf? (name : Text) (build : Build) : Option Text :=
  match build.named name with
  | [project] => some project.path
  | _ => none

end Build

end BuildChain
