import BuildChain.CommandLine.Parse

/-! # Command lines

A command line names the directory of a build, with options before and after it. An option is
written by its name, which may be cut short, or by its letter, and its value in the same word or
in the next one. The words of a line and what it asks for are both given without reading the
words.
-/

namespace BuildChain.CommandLine

/-- The name of an option, or a beginning of it. -/
structure Abbreviation (switch : Switch) where
  text : Text
  ne_nil : text ≠ []
  beginning : text <+: switch.name

/-- A value that cannot be taken for an option or for nothing, wherever it is written. -/
structure ValueText where
  text : Text
  ne_nil : text ≠ []
  not_dash : text.head? ≠ some '-'
  not_equals : text.head? ≠ some '='

/-- An option with its value. -/
inductive Setting
  | output (directory : ValueText)
  | mode (mode : Mode)
  | project (name : ValueText)
  | exclude (name : ValueText)
  | group (name : ValueText)

namespace Setting

def switch : Setting → Switch
  | output _ => .output
  | mode _ => .mode
  | project _ => .project
  | exclude _ => .exclude
  | group _ => .group

def value : Setting → ValueText
  | output value | project value | exclude value | group value => value
  | mode m => ⟨m.text, by cases m <;> decide, by cases m <;> decide, by cases m <;> decide⟩

end Setting

/-- The ways to write an option with its value. -/
inductive Spelling (switch : Switch)
  /-- As in `--name=value`. -/
  | assigned (name : Abbreviation switch)
  /-- As in `--name value`. -/
  | named (name : Abbreviation switch)
  /-- As in `-xvalue`. -/
  | attached
  /-- As in `-x value`. -/
  | lettered

/-- The ways to write an option without a value. -/
inductive FlagSpelling (switch : Switch)
  | named (name : Abbreviation switch)
  | lettered

/-- An option as it is written. -/
inductive Given
  | setting (setting : Setting) (spelling : Spelling setting.switch)
  | dryRun (spelling : FlagSpelling .dryRun)

namespace Given

def words : Given → List Text
  | setting s (.assigned name) => ["--" ++ name.text ++ .char '=' :: s.value.text]
  | setting s (.named name) => ["--" ++ name.text, s.value.text]
  | setting s .attached => [s.switch.shortForm ++ s.value.text]
  | setting s .lettered => [s.switch.shortForm, s.value.text]
  | dryRun (.named name) => ["--" ++ name.text]
  | dryRun .lettered => [Switch.dryRun.shortForm]

/-- The value, if the option is the given one. -/
def value? (switch : Switch) : Given → Option Text
  | setting s _ => if s.switch = switch then some s.value.text else none
  | dryRun _ => none

def mode? : Given → Option Mode
  | setting (.mode m) _ => some m
  | _ => none

def isDryRun : Given → Bool
  | dryRun _ => true
  | _ => false

end Given

/-- The values that options give to one of them, in order. -/
def values (switch : Switch) (given : List Given) : List Text :=
  given.filterMap (Given.value? switch)

/-- What options come to: of all but exclusions only the last value counts. -/
def optionsOf (given : List Given) : Options where
  output := (values .output given).getLast?.map .text
  dryRun := given.any Given.isDryRun
  mode := some ((given.filterMap Given.mode?).getLast?.getD .plugin)
  only := (values .project given).getLast?.map .text
  excluded :=
    if values .exclude given = [] then none else some ((values .exclude given).map .text)
  group := (values .group given).getLast?.map .text

structure Line where
  before : List Given
  directory : Text
  ne_nil : directory ≠ []
  not_dash : directory.head? ≠ some '-'
  after : List Given

namespace Line

def words (line : Line) : List Text :=
  line.before.flatMap Given.words ++ line.directory :: line.after.flatMap Given.words

def given (line : Line) : List Given :=
  line.before ++ line.after

/-- What a line says, with the values as they are written. -/
def invocation (line : Line) : Invocation where
  directory := FilePath.ofText line.directory
  options := optionsOf line.given

/-- What a line asks for. -/
def request (line : Line) : Request where
  directory := FilePath.ofText line.directory
  output := (values .output line.given).getLast?.map FilePath.ofText
  dryRun := line.given.any Given.isDryRun
  mode := (values .mode line.given).getLast?.getD "plugin"
  selection := (values .project line.given).getLast?.elim .all .only
  excluded := if values .exclude line.given = [] then none else some (values .exclude line.given)
  group := (values .group line.given).getLast?

end Line

end BuildChain.CommandLine
