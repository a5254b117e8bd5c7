import BuildChain.FilePath
import BuildChain.Table
import BuildChain.Text.Quoted

/-! # File trees

The files and directories that a run can see and change. Paths are followed segment by segment,
and every step needs a directory to start from. An operation that fails leaves what it did before:
directories that were made stay, and a file that was opened for writing has lost what it held and
has what could be stored of its new content.

Names are those of files and directories only. There are no symbolic links, no permissions and no
bound on the length of a name, and two names lead to one file only if they are equal. A file that
cannot hold its content stands for a full disk as well.
-/

namespace BuildChain

inductive Node
  | file (bytes : Text.Bytes)
  | directory
  deriving DecidableEq, Repr

/-- What there is room for. -/
structure Limits where
  /-- How deep the calls that make a directory can be nested, each for the directory above it. -/
  nesting : Nat := 990
  /-- How many bytes a file can hold, where that is bounded. -/
  room : Table Location Nat := []
  deriving DecidableEq, Repr

/-- What is known of each location, and the directory that relative paths start from. The root is
always a directory. -/
structure FileTree where
  working : Location
  nodes : Table Location Node
  limits : Limits := {}
  deriving DecidableEq, Repr

inductive FileFault
  | missing
  | occupied
  | notDirectory
  | isDirectory
  | tooLarge
  /-- The content has halves of surrogate pairs, for which there are no bytes. -/
  | unencodable (error : Text.EncodeError)
  /-- The path has such halves, and they do not stand for bytes either. -/
  | unnameable (error : Text.EncodeError)
  /-- A null character in a path, where it would end. -/
  | embeddedNull
  /-- More directories to be made inside one another than calls can be nested. -/
  | tooDeep
  deriving DecidableEq, Repr

structure FileError where
  fault : FileFault
  path : FilePath
  deriving DecidableEq, Repr

namespace FileFault

/-- The number under which the file system reports a fault. A fault without a number comes up
before the file system is asked. -/
def number? : FileFault → Option Nat
  | missing => some 2
  | occupied => some 17
  | notDirectory => some 20
  | isDirectory => some 21
  | tooLarge => some 27
  | unencodable _ => none
  | unnameable _ => none
  | embeddedNull => none
  | tooDeep => none

/-- The fault is an error of the file system. -/
def isReported (fault : FileFault) : Bool :=
  fault.number?.isSome

def description : FileFault → Text
  | missing => "No such file or directory"
  | occupied => "File exists"
  | notDirectory => "Not a directory"
  | isDirectory => "Is a directory"
  | tooLarge => "File too large"
  | unencodable error => error.message
  | unnameable error => error.message
  | embeddedNull => "embedded null byte"
  | tooDeep => "maximum recursion depth exceeded"

/-- The fault comes up when the file is open, and what it held is gone. -/
def inStoring : FileFault → Bool
  | tooLarge => true
  | unencodable _ => true
  | _ => false

end FileFault

def FileError.message (e : FileError) : Text :=
  match e.fault.number? with
  | none => e.fault.description
  | some number =>
    let report := "[Errno " ++ Text.ofNat number ++ "] " ++ e.fault.description
    if e.fault.inStoring then report else report ++ ": " ++ Text.quoted e.path.text

/-- What a file comes to hold of a text, and the fault that keeps it from holding all of it. -/
def Limits.store (limits : Limits) (location : Location) (content : Text) :
    Text.Bytes × Option FileFault :=
  match Text.encodeError? content with
  | some error => ([], some (.unencodable error))
  | none =>
    match Table.get? location limits.room with
    | none => (Text.encode content, none)
    | some room =>
      if (Text.encode content).length ≤ room then (Text.encode content, none)
      else ((Text.encode content).take room, some .tooLarge)

namespace FileTree

/-- A tree with nothing but the working directory. -/
def empty (working : Location) : FileTree where
  working := working
  nodes := [(working, .directory)]

def get? (tree : FileTree) (location : Location) : Option Node :=
  if location.isEmpty then some .directory else Table.get? location tree.nodes

def set (tree : FileTree) (location : Location) (node : Node) : FileTree :=
  { tree with nodes := Table.set location node tree.nodes }

/-- One step from a location that has to be a directory. -/
def step (tree : FileTree) (location : Location) (segment : Text) : Except FileFault Location :=
  match tree.get? location with
  | none => .error .missing
  | some (.file _) => .error .notDirectory
  | some .directory => .ok (location.enter segment)

/-- Where the steps lead from a location. Nothing needs to be there. -/
def walk (tree : FileTree) : Location → List Text → Except FileFault Location
  | location, [] => .ok location
  | location, segment :: segments =>
    match tree.step location segment with
    | .ok next => tree.walk next segments
    | .error fault => .error fault

/-- Where a path leads. A path that has no bytes, or a null character among them, is not followed
at all. -/
def locate (tree : FileTree) (path : FilePath) : Except FileFault Location :=
  match Text.pathError? path.text with
  | some error => .error (.unnameable error)
  | none =>
    if path.hasNull then .error .embeddedNull
    else tree.walk (path.origin tree.working) path.segments

/-- What is at the end of a path. -/
def at? (tree : FileTree) (path : FilePath) : Except FileFault Node :=
  match tree.locate path with
  | .error fault => .error fault
  | .ok location =>
    match tree.get? location with
    | some node => .ok node
    | none => .error .missing

def exists? (tree : FileTree) (path : FilePath) : Bool :=
  (tree.at? path).isOk

def isDirectory (tree : FileTree) (path : FilePath) : Bool :=
  match tree.at? path with
  | .ok .directory => true
  | _ => false

/-- The bytes of a file. -/
def read (tree : FileTree) (path : FilePath) : Except FileError Text.Bytes :=
  match tree.at? path with
  | .ok (.file bytes) => .ok bytes
  | .ok .directory => .error ⟨.isDirectory, path⟩
  | .error fault => .error ⟨fault, path⟩

/-- Makes one directory, where nothing is yet. -/
def makeDirectory (tree : FileTree) (path : FilePath) : Except FileFault FileTree :=
  match tree.locate path with
  | .error fault => .error fault
  | .ok location =>
    match tree.get? location with
    | some _ => .error .occupied
    | none => .ok (tree.set location .directory)

/-- What a fault in making a directory comes to: nothing, if the directory is there. -/
def settle (tree : FileTree) (path : FilePath) (fault : FileFault) :
    FileTree × Option FileError :=
  if tree.isDirectory path then (tree, none) else (tree, some ⟨fault, path⟩)

/-- Makes a directory unless there is one. -/
def ensureDirectory (tree : FileTree) (path : FilePath) : FileTree × Option FileError :=
  match tree.makeDirectory path with
  | .ok tree => (tree, none)
  | .error fault => tree.settle path fault

/-- Makes a directory unless there is one, with the directories above it that are missing. The
segments are given innermost first. Each directory above is made by a nested call, of which so
many are left. -/
def makeDirectoriesFrom (anchor : Anchor) :
    List Text → (calls : Nat) → FileTree → FileTree × Option FileError
  | [], _, tree => (tree, none)
  | segment :: above, calls, tree =>
    let path : FilePath := ⟨anchor, (segment :: above).reverse⟩
    match tree.makeDirectory path with
    | .ok tree => (tree, none)
    | .error .missing =>
      if calls = 0 then (tree, some ⟨.tooDeep, path⟩)
      else match makeDirectoriesFrom anchor above (calls - 1) tree with
        | (tree, some e) => (tree, some e)
        | (tree, none) => tree.ensureDirectory path
    | .error fault => tree.settle path fault

def makeDirectories (tree : FileTree) (path : FilePath) : FileTree × Option FileError :=
  makeDirectoriesFrom path.anchor path.segments.reverse tree.limits.nesting tree

/-- Opens a file in a directory that is there, which takes from it what it held, and stores a text
in it as far as it goes. -/
def writeFile (tree : FileTree) (path : FilePath) (content : Text) :
    FileTree × Option FileError :=
  match tree.locate path with
  | .error fault => (tree, some ⟨fault, path⟩)
  | .ok location =>
    match tree.get? location with
    | some .directory => (tree, some ⟨.isDirectory, path⟩)
    | _ =>
      let (bytes, fault) := tree.limits.store location content
      (tree.set location (.file bytes), fault.map (⟨·, path⟩))

/-- Writes a text to a file, and makes the directories that it needs. -/
def write (tree : FileTree) (path : FilePath) (content : Text) :
    FileTree × Option FileError :=
  match tree.makeDirectories path.parent with
  | (tree, some e) => (tree, some e)
  | (tree, none) => tree.writeFile path content

/-- What is not the same in an earlier tree. -/
def changes (before after : FileTree) : List (Location × Node) :=
  after.nodes.filter fun n => before.get? n.1 ≠ some n.2

/-- The changed files below the working directory with their paths from there, in the order of
the paths. -/
def changedFiles (before after : FileTree) : List (Text × Text.Bytes) :=
  let files := (changes before after).filterMap fun (location, node) =>
    match node with
    | .file bytes =>
      if after.working.isPrefixOf location then
        some (Text.join "/" (location.drop after.working.length), bytes)
      else none
    | .directory => none
  files.mergeSort fun a b => !decide (b.1 < a.1)

/-- A node that is set is found at its location, and no other location changes. -/
theorem get?_set (tree : FileTree) (location : Location) (node : Node) (l : Location)
    (h : location ≠ []) :
    (tree.set location node).get? l = if l = location then some node else tree.get? l := by
  unfold get? set
  by_cases hl : l = []
  · subst hl; simp [h.symm]
  · simp [hl, Table.get?_set]

end FileTree

end BuildChain
