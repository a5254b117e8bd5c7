import BuildChain.CommandLine.Usage

/-! # The program

Shows the disk to the library as a file tree, as far as the run looks at it, and puts on the disk
what the run changed.
-/

namespace BuildChain.Main

/-- A text as the disk and the terminal get it. No argument of the program has half a surrogate
pair. -/
def shown (t : Text) : String :=
  String.ofList (t.map fun
    | .char c => c
    | .lone _ => '\ufffd')

/-- The path of a location on the disk. -/
def diskPath (location : Location) : String :=
  shown ("/" ++ Text.join "/" location)

/-- What the disk holds at a location. -/
def lookAt (location : Location) : IO (Option Node) := do
  try
    let bytes ← IO.FS.readBinFile (diskPath location)
    return some (.file bytes.toList)
  catch
    | .inappropriateType _ code _ =>
      return if FileFault.isDirectory.number? = some code.toNat then some .directory else none
    | _ => return none

/-- Records what the disk holds at the end of the segments and on the way there. -/
def record (tree : FileTree) (location : Location) : List Text → IO FileTree
  | [] => pure tree
  | segment :: segments => do
    let next := location.enter segment
    match next, ← lookAt next with
    | [], _ | _, none => record tree next segments
    | _, some node => record (tree.set next node) next segments

def recordPath (tree : FileTree) (path : FilePath) : IO FileTree :=
  record tree (path.origin tree.working) path.segments

/-- Puts a changed node on the disk. -/
def store (location : Location) : Node → IO Unit
  | .directory => IO.FS.createDirAll (diskPath location)
  | .file bytes => IO.FS.writeBinFile (diskPath location) ⟨bytes.toArray⟩

/-- The exit code of the program. -/
def exitCode (o : Outcome) : UInt32 :=
  match o.ending with
  | .completed => 0
  | .exited code => code.toUInt32
  | .failed _ => 1

end BuildChain.Main

open BuildChain BuildChain.Main

/-- Runs the program on the disk. -/
def main (arguments : List String) : IO UInt32 := do
  let words := arguments.map fun (word : String) => (word : Text)
  let directory : Text := (← IO.currentDir).toString
  let tree := FileTree.empty (FilePath.ofText directory).segments
  let tree ← (CommandLine.files words tree).foldlM recordPath tree
  let tree ← (CommandLine.files words tree).foldlM recordPath tree
  let outcome := CommandLine.run words tree
  for (location, node) in tree.changes outcome.tree do
    store location node
  IO.print (shown (Text.printed outcome.out))
  IO.eprint (shown (Text.printed outcome.err))
  if let .failed failure := outcome.ending then
    IO.eprintln (shown failure.message)
  return exitCode outcome
