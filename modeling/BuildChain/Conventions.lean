import BuildChain.Table
import BuildChain.Text.Blank
import BuildChain.TestOrder

/-! # Conventions

What all projects of a build share. The values come in three layers: those given for one run,
those in the build's properties, and the defaults.
-/

namespace BuildChain

structure Conventions where
  group : Text
  plugins : List Text
  /-- The project whose resolved versions all others take. -/
  versionsFrom : Option Text
  /-- Pairs of a configuration and the one that it extends. -/
  extensions : List (Text × Text)
  gitKeys : List Text
  /-- The names that take no part in the test order. -/
  excluded : List Text
  tasks : TestTasks
  deriving DecidableEq, Repr

namespace Conventions

/-- The non-empty items of a list property. Commas and blanks separate them. -/
def items (value : Text) : List Text :=
  Text.pieces (fun c => c == ',' || Text.isBlank c) value

def default : Conventions where
  group := "com.swirlds"
  plugins := ["java-library", "com.hedera.hashgraph.java", "com.gorylenko.gradle-git-properties"]
  versionsFrom := some ":swirlds-platform-core"
  extensions := [("mainRuntimeClasspath", "internal")]
  gitKeys := ["git.build.version", "git.commit.id", "git.commit.id.abbrev"]
  excluded := ["swirlds", "swirlds-benchmarks", "swirlds-sign-tool"]
  tasks := { test := "test", hammer := "hammerTest" }

/-- The property keys that name a convention. -/
inductive Key
  | group
  | plugins
  | versionsFrom
  | gitKeys
  | excluded
  | testTask
  | hammerTask
  deriving DecidableEq, Repr

def Key.text : Key → Text
  | group => "conventions.group"
  | plugins => "conventions.plugins"
  | versionsFrom => "conventions.versionsFrom"
  | gitKeys => "conventions.gitProperties.keys"
  | excluded => "conventions.sequentialTests.excludedProjects"
  | testTask => "conventions.sequentialTests.testTask"
  | hammerTask => "conventions.sequentialTests.hammerTestTask"

def Key.value? (key : Key) (properties : Entries) : Option Text :=
  properties.get? key.text

/-- The text, unless it is empty. -/
def nonempty? : Option Text → Option Text
  | some [] => none
  | t => t

/-- A text convention: an empty property counts as none. -/
def textOf (properties : Entries) (key : Key) (fallback : Text) : Text :=
  (nonempty? (key.value? properties)).getD fallback

/-- A list convention: an empty property is the empty list. -/
def itemsOf (properties : Entries) (key : Key) (fallback : List Text) : List Text :=
  ((key.value? properties).map items).getD fallback

/-- The conventions of a build with the given properties. The group and the excluded names may be
given for one run, the latter even as none at all. -/
def load (properties : Entries) (group : Option Text) (excluded : Option (List Text)) :
    Conventions where
  group := (nonempty? group).getD (textOf properties .group default.group)
  plugins := itemsOf properties .plugins default.plugins
  versionsFrom := nonempty? ((Key.versionsFrom.value? properties).or default.versionsFrom)
  extensions := default.extensions
  gitKeys := itemsOf properties .gitKeys default.gitKeys
  excluded := excluded.getD (itemsOf properties .excluded default.excluded)
  tasks :=
    { test := textOf properties .testTask default.tasks.test
      hammer := textOf properties .hammerTask default.tasks.hammer }

end Conventions

end BuildChain
