import BuildChain.Proofs.Settings.Projects
import BuildChain.Proofs.Text.Utf8
import BuildChain.Run.Load

/-! # Reading back a settings document

The build that is read from the text of a document is the one that the document declares.
-/

namespace BuildChain

/-- The build of a document is read from its text. -/
theorem Build.ofScript_document (doc : Settings.Document) (directoryName : Text)
    (properties : Entries) :
    Build.ofScript (Text.foldNewlines doc.text) directoryName properties =
      doc.build directoryName properties := by
  rw [Build.ofScript, doc.strip, Settings.rootName?_bare, Settings.projects_bare]
  rfl

/-- A settings script with the text of a document gives the build that the document declares. No
file holds a text with halves of surrogate pairs. -/
theorem Build.load_document (doc : Settings.Document) {tree : FileTree} {settings : FilePath}
    (hwhole : doc.text.IsWhole) (h : tree.read settings = .ok (Text.encode doc.text)) :
    Build.load tree settings =
      (Properties.load tree (Build.propertiesPath settings)).map
        (doc.build (settings.parent.directoryName tree.working)) := by
  have hread : tree.readText settings = .ok (Text.foldNewlines doc.text) := by
    rw [FileTree.readText, h]
    simp only [Text.ofFile, Text.decode_encode hwhole]
  rw [Build.load, hread]
  cases Properties.load tree (Build.propertiesPath settings) with
  | error e => rfl
  | ok properties =>
    exact congrArg Except.ok
      (Build.ofScript_document doc (settings.parent.directoryName tree.working) properties)

/-- A document with the text
```
//include("none")
include("app:core", /* ) */
"app",)
include ':lib'
rootProject.name = "sample"
project("app:core").projectDir = file("core/")
```
-/
def Settings.sample : Settings.Document := [
  .lineComment ⟨("include(\"none\")" : Text), by decide, by decide⟩,
  .call ⟨⟨("app:core" : Text), by decide, by decide⟩,
    [⟨[.space, .block ⟨(" ) " : Text), by decide⟩, .newline],
      ⟨("app" : Text), by decide, by decide⟩⟩]⟩ (some []),
  .command ⟨⟨(":lib" : Text), by decide, by decide⟩, []⟩,
  .rootName ⟨("sample" : Text), by decide, by decide⟩,
  .directory ⟨("app:core" : Text), by decide, by decide⟩ ⟨("core/" : Text), by decide, by decide⟩]

theorem Build.load_sample :
    Build.load
        ⟨[], [([("settings.gradle" : Text)], .file (Text.encode Settings.sample.text))], {}⟩
        (.ofSegment "settings.gradle") =
      .ok
        { rootName := "sample"
          projects := [⟨":app", "app", "app"⟩, ⟨":app:core", "core", "core"⟩,
            ⟨":lib", "lib", "lib"⟩]
          properties := [] } :=
  (Build.load_document Settings.sample (by decide +kernel) (by decide +kernel)).trans
    (by decide +kernel)

end BuildChain
