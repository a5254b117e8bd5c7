import Mathlib.Data.List.Find
import BuildChain.Run.Request

/-! # What a run reads

The build of a request is read off a few files. Trees that have the same there, or nothing that
can be reached, have the same build, but for the name that it may take from its directory.
-/

namespace BuildChain

namespace FileTree

variable {before after : FileTree} {path : FilePath}

/-- Both trees have the same at the path, or nothing that can be reached. -/
def SameAt (before after : FileTree) (path : FilePath) : Prop :=
  (after.at? path).toOption = (before.at? path).toOption

theorem exists?_eq (tree : FileTree) (path : FilePath) :
    tree.exists? path = (tree.at? path).toOption.isSome := by
  rw [exists?]
  cases tree.at? path <;> rfl

theorem at?_of_read {bytes : Text.Bytes} (h : before.read path = .ok bytes) :
    before.at? path = .ok (.file bytes) := by
  rw [read] at h
  split at h
  · next hfile =>
    obtain rfl := Except.ok.inj h
    exact hfile
  all_goals cases h

theorem SameAt.exists? (h : SameAt before after path) :
    after.exists? path = before.exists? path := by
  rw [exists?_eq, exists?_eq, h]

end FileTree

/-- The text of a file that can be decoded. -/
def Node.text? : Node → Option Text
  | file bytes => (Text.ofFile bytes).toOption
  | directory => none

namespace FileTree

variable {before after : FileTree} {path : FilePath}

theorem toOption_readText (tree : FileTree) (path : FilePath) :
    (tree.readText path).toOption = (tree.at? path).toOption.bind Node.text? := by
  rw [readText, read]
  cases tree.at? path with
  | error fault => rfl
  | ok node => cases node <;> rfl

theorem SameAt.toOption_readText (h : SameAt before after path) :
    (after.readText path).toOption = (before.readText path).toOption := by
  rw [FileTree.toOption_readText, FileTree.toOption_readText, h]

end FileTree

open FileTree

theorem Properties.toOption_load (tree : FileTree) (path : FilePath) :
    (Properties.load tree path).toOption =
      if tree.exists? path then (tree.readText path).toOption.map parse else some [] := by
  rw [load]
  split
  · cases tree.readText path <;> rfl
  · rfl

namespace Build

/-- The build without its root name. -/
def anonymous (build : Build) : Build :=
  { build with rootName := [] }

variable {before after : FileTree} {settings : FilePath}

/-- The directory that a build lies in gives it a name at most. -/
theorem toOption_load (tree : FileTree) (settings : FilePath) :
    (load tree settings).toOption.map anonymous =
      (tree.readText settings).toOption.bind fun source =>
        (Properties.load tree (propertiesPath settings)).toOption.map fun properties =>
          (ofScript source [] properties).anonymous := by
  rw [load]
  cases tree.readText settings with
  | error failure => rfl
  | ok source => cases Properties.load tree (propertiesPath settings) <;> rfl

theorem load_congr (hsettings : SameAt before after settings)
    (hproperties : SameAt before after (propertiesPath settings)) :
    (load after settings).toOption.map anonymous =
      (load before settings).toOption.map anonymous := by
  rw [toOption_load, toOption_load, Properties.toOption_load, Properties.toOption_load,
    hsettings.toOption_readText, hproperties.exists?, hproperties.toOption_readText]

end Build

namespace Request

variable {request : Request} {before after tree : FileTree}

theorem file?_congr (h : ∀ path ∈ request.sources, SameAt before after path) :
    Settings.file? after request.directory = Settings.file? before request.directory := by
  unfold Settings.file?
  apply List.find?_congr
  intro settings hsettings
  apply SameAt.exists?
  apply h
  exact List.mem_flatMap.mpr ⟨settings, hsettings, by simp⟩

theorem toOption_build (request : Request) (tree : FileTree) :
    (request.build tree).toOption =
      (Settings.file? tree request.directory).bind fun settings =>
        (Build.load tree settings).toOption := by
  rw [build]
  cases Settings.file? tree request.directory with
  | none => rfl
  | some settings => cases h : Build.load tree settings <;> simp [h, Except.toOption]

/-- The build of a request depends on the files that a run may read. -/
theorem build_congr (h : ∀ path ∈ request.sources, SameAt before after path) :
    (request.build after).toOption.map Build.anonymous =
      (request.build before).toOption.map Build.anonymous := by
  rw [toOption_build, toOption_build, file?_congr h, Option.map_bind, Option.map_bind]
  apply Option.bind_congr
  intro settings hfile
  have hsettings : settings ∈ Settings.candidates request.directory :=
    List.mem_of_find?_eq_some hfile
  apply Build.load_congr
  · exact h _ (List.mem_flatMap.mpr ⟨settings, hsettings, by simp⟩)
  · exact h _ (List.mem_flatMap.mpr ⟨settings, hsettings, by simp⟩)

end Request

end BuildChain
