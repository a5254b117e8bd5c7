import BuildChain.Build
import BuildChain.Settings.Comment
import BuildChain.Settings.Include

/-! # Settings scripts

The statements of a settings script that declare the build: the root name, the included projects
and the directories that projects are moved to. All other statements of a script are passed over.
-/

namespace BuildChain.Settings

open Text

/-- Reads `rootProject.name = "…"`. -/
def rootNameStatement : Reader Text
  | _, t => do
    let t ← after? "rootProject.name" t
    let t ← after? "=" (skipBlanks t)
    looseLiteral? (skipBlanks t)

/-- The root name given first. -/
def rootName? (script : Text) : Option Text :=
  (occurrences rootNameStatement script).head?

/-- Reads `project("…").projectDir = file("…")`, where `file(` may be missing: the project's path
and its directory, both as written. -/
def directoryStatement : Reader (Text × Text)
  | _, t => do
    let t ← after? "project(" t
    let (path, t) ← looseLiteral? (skipBlanks t)
    let t ← after? ")" (skipBlanks t)
    let t ← after? ".projectDir" (skipBlanks t)
    let t ← after? "=" (skipBlanks t)
    let t := skipBlanks t
    let t := match after? "file(" t with
      | some inner => skipBlanks inner
      | none => t
    let (directory, rest) ← looseLiteral? t
    return ((path, directory), rest)

/-- The directories that projects are moved to, by absolute project path. -/
def directories (script : Text) : Entries :=
  Table.ofList ((occurrences directoryStatement script).map fun (path, directory) =>
    (ProjectPath.normalize path, trimEnd (· == '/') directory))

/-- The non-empty beginnings of a list, shortest first. -/
def beginnings : List Text → List (List Text)
  | [] => []
  | t :: ts => [t] :: (beginnings ts).map (t :: ·)

/-- The path of a project after those of the projects above it, outermost first. -/
def ancestry (path : Text) : List Text :=
  (beginnings (ProjectPath.segments path)).map ProjectPath.ofSegments

/-- The members that have no equal before them. -/
def firstOccurrences : List Text → List Text
  | [] => []
  | t :: ts => t :: (firstOccurrences ts).filter (· ≠ t)

/-- The paths of all projects: those included and, before each, those above it. -/
def projectPaths (script : Text) : List Text :=
  firstOccurrences ((includes script).flatMap ancestry)

/-- The project at an absolute path. -/
def project (moved : Entries) (path : Text) : Project where
  path := path
  name := ProjectPath.name path
  directory := (moved.get? path).getD (ProjectPath.directory path)

def projects (script : Text) : List Project :=
  (projectPaths script).map (project (directories script))

end BuildChain.Settings

namespace BuildChain.Build

/-- The build that a script declares in a directory named `directoryName`. -/
def ofScript (source directoryName : Text) (properties : Entries) : Build :=
  let script := Settings.stripComments source
  { rootName := (Settings.rootName? script).getD directoryName
    projects := Settings.projects script
    properties := properties }

end BuildChain.Build
