import BuildChain.FileTree
import BuildChain.Properties
import BuildChain.Settings.Script

/-! # Reading a build

Finding the settings script of a build and reading it together with the properties next to it.
-/

namespace BuildChain

/-- Why a run broke off. -/
inductive Failure
  | file (error : FileError)
  | decoding (error : Text.DecodeError)
  /-- A project was to be excluded, and no name was given for it. -/
  | unnamedExclusion
  deriving DecidableEq, Repr

def Failure.message : Failure → Text
  | file error => error.message
  | decoding error => error.message
  | unnamedExclusion => "unhashable type: 'list'"

/-- The text in the bytes of a file, with a newline as its only line ending. -/
def Text.ofFile (bytes : Text.Bytes) : Except Failure Text :=
  match Text.decode bytes with
  | .ok t => .ok (Text.foldNewlines t)
  | .error e => .error (.decoding e)

/-- The text of a file. -/
def FileTree.readText (tree : FileTree) (path : FilePath) : Except Failure Text :=
  match tree.read path with
  | .ok bytes => Text.ofFile bytes
  | .error e => .error (.file e)

/-- The entries of a properties file, none if there is no file. -/
def Properties.load (tree : FileTree) (path : FilePath) : Except Failure Entries :=
  if tree.exists? path then Properties.parse <$> tree.readText path else .ok []

namespace Settings

/-- The names that a settings script may have, preferred first. -/
def fileNames : List Text :=
  ["settings.gradle.kts", "settings.gradle"]

/-- The paths that a settings script of the build in a directory may have. -/
def candidates (directory : FilePath) : List FilePath :=
  fileNames.map fun name => directory / FilePath.ofSegment name

/-- The settings script of the build in a directory. -/
def file? (tree : FileTree) (directory : FilePath) : Option FilePath :=
  (candidates directory).find? tree.exists?

end Settings

namespace Build

/-- The properties file that belongs to a settings script. -/
def propertiesPath (settings : FilePath) : FilePath :=
  settings.parent / FilePath.ofSegment "gradle.properties"

/-- The build that a settings script declares. The script is read before the properties. -/
def load (tree : FileTree) (settings : FilePath) : Except Failure Build := do
  let source ← tree.readText settings
  let properties ← Properties.load tree (propertiesPath settings)
  return ofScript source (settings.parent.directoryName tree.working) properties

end Build

end BuildChain
