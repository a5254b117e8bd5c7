import BuildChain.Proofs.Conventions.Items
import BuildChain.Proofs.Table
import BuildChain.Properties

/-! # Layers of conventions

What is given for one run comes before what the properties of the build say, and that before the
defaults. Each convention has a property of its own, and of a property only the value that it is
given last matters.
-/

namespace BuildChain

namespace Properties

/-- The entries of a text in order, those that are replaced later included. -/
def given (t : Text) : List (Text × Text) :=
  (logicalLines [] (Text.lines t)).filterMap entry?

end Properties

namespace Conventions

open Properties

variable {α : Type} {t u : Text} {group : Option Text} {excluded : Option (List Text)} {key : Key}
  {c d : Conventions} {properties properties' : Entries}

/-- The value of a convention. -/
inductive Setting
  | text (t : Text)
  | optional (t : Option Text)
  | texts (ts : List Text)

/-- The convention that a key is about. -/
def setting (c : Conventions) : Key → Setting
  | .group => .text c.group
  | .plugins => .texts c.plugins
  | .versionsFrom => .optional c.versionsFrom
  | .gitKeys => .texts c.gitKeys
  | .excluded => .texts c.excluded
  | .testTask => .text c.tasks.test
  | .hammerTask => .text c.tasks.hammer

end Conventions

end BuildChain
