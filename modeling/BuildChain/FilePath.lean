import BuildChain.Text.Basic

/-! # File paths

A file path as text and as its segments, and where it leads. Repeated slashes, segments `.` and a
slash at the end do not matter. A segment `..` stays, since what it means depends on the
directories there are.
-/

namespace BuildChain

/-- A place in a file tree: the segments from the root. -/
abbrev Location := List Text

/-- The location one segment further. -/
def Location.enter (location : Location) (segment : Text) : Location :=
  if segment = (".." : Text) then location.dropLast else location ++ [segment]

/-- What a path starts from. Two slashes at the start are kept apart from one or more than two. -/
inductive Anchor
  | working
  | root
  | doubleRoot
  deriving DecidableEq, Repr

structure FilePath where
  anchor : Anchor
  segments : List Text
  deriving DecidableEq, Repr

namespace FilePath

def ofText (t : Text) : FilePath where
  anchor := match (t.takeWhile (· == .char '/')).length with
    | 0 => .working
    | 2 => .doubleRoot
    | _ => .root
  segments := (Text.pieces (· == .char '/') t).filter (· ≠ [.char '.'])

/-- The relative path with one segment. -/
def ofSegment (segment : Text) : FilePath :=
  ⟨.working, [segment]⟩

def text (path : FilePath) : Text :=
  let t := Text.join "/" path.segments
  match path.anchor with
  | .working => if t.isEmpty then "." else t
  | .root => "/" ++ t
  | .doubleRoot => "//" ++ t

/-- The second path, seen from the first. -/
def join (above below : FilePath) : FilePath :=
  match below.anchor with
  | .working => { above with segments := above.segments ++ below.segments }
  | _ => below

instance : Div FilePath := ⟨join⟩

/-- The path without its last segment. -/
def parent (path : FilePath) : FilePath :=
  { path with segments := path.segments.dropLast }

/-- A segment has the character that would end the path. -/
def hasNull (path : FilePath) : Bool :=
  path.segments.any (·.contains '\x00')

/-- A segment has half a surrogate pair that stands for no byte. -/
def hasStray (path : FilePath) : Bool :=
  path.segments.any (·.any CodePoint.isStray)

/-- Where the first step of a path starts. -/
def origin (working : Location) (path : FilePath) : Location :=
  match path.anchor with
  | .working => working
  | _ => []

/-- The name of the directory at a path, read off the path and the working directory alone. The
root has the empty name. -/
def directoryName (working : Location) (path : FilePath) : Text :=
  (path.segments.foldl Location.enter (path.origin working)).getLastD []

theorem join_assoc (p q r : FilePath) : p / q / r = p / (q / r) := by
  change join (join p q) r = join p (join q r)
  obtain ⟨a, s⟩ := q
  obtain ⟨b, t⟩ := r
  cases a <;> cases b <;> simp [join]

theorem parent_join_ofSegment (p : FilePath) (segment : Text) :
    (p / ofSegment segment).parent = p := by
  change (join p (ofSegment segment)).parent = p
  simp [ofSegment, join, parent]

end FilePath

end BuildChain
