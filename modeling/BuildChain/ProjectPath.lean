import BuildChain.Text.Blank

/-! # Project paths

A project path names a project of a build by its segments, as in `:platform:core`. All readings
of a path go through its segments: surplus colons and blanks around the path do not matter.
-/

namespace BuildChain.ProjectPath

/-- The non-empty segments of a path. -/
def segments (path : Text) : List Text :=
  Text.pieces (· == ':') (Text.strip path)

/-- The absolute path with the given segments. -/
def ofSegments (segments : List Text) : Text :=
  ":" ++ Text.join ":" segments

/-- The absolute form of a path. -/
def normalize (path : Text) : Text :=
  ofSegments (segments path)

/-- The last segment, or the empty text for the root project. -/
def name (path : Text) : Text :=
  (segments path).getLastD []

/-- The directory that a project has unless the build moves it. -/
def directory (path : Text) : Text :=
  Text.join "/" (segments path)

/-- The path of a task of the project at `path`. -/
def task (path task : Text) : Text :=
  normalize path ++ ":" ++ task

/-- The path of a task of a project right below the root. -/
def flatTask (name task : Text) : Text :=
  ":" ++ name ++ ":" ++ task

end BuildChain.ProjectPath
