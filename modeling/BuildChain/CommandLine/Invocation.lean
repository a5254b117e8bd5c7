import BuildChain.CommandLine.Error
import BuildChain.Run.Request

/-! # Invocations

What a command line asks for: the directory of the build and the values of the options. An option
that the mark `--` is attached to is given nothing. What follows from that differs: an output
directory or a group is then as if not given, and an exclusion without a name ends the run.
-/

namespace BuildChain.CommandLine

/-- What an option is given. -/
inductive Value
  | text (text : Text)
  | nothing
  deriving DecidableEq, Repr

namespace Value

/-- The value in a text attached to an option. The mark that ends the options is no value. -/
def ofAttached (t : Text) : Value :=
  if t = ("--" : Text) then nothing else text t

def text? : Value → Option Text
  | text t => some t
  | nothing => none

end Value

/-- The values of the options. -/
structure Options where
  output : Option Value
  dryRun : Bool
  /-- The kind of the run, none if the option is given nothing. -/
  mode : Option Mode
  only : Option Value
  excluded : Option (List Value)
  group : Option Value
  deriving DecidableEq, Repr

namespace Options

/-- The values of the options when none is given. -/
def default : Options where
  output := none
  dryRun := false
  mode := some .plugin
  only := none
  excluded := none
  group := none

/-- Takes in one option. Exclusions add up, any other option replaces its value. -/
def give (options : Options) (switch : Switch) (value : Value) : Except Stop Options :=
  match switch with
  | .help => .error .help
  | .output => .ok { options with output := some value }
  | .dryRun => .ok { options with dryRun := true }
  | .mode =>
    match value with
    | .nothing => .ok { options with mode := none }
    | .text t =>
      match Mode.ofText? t with
      | some mode => .ok { options with mode := some mode }
      | none => .error (.error (.invalidMode t))
  | .project => .ok { options with only := some value }
  | .exclude => .ok { options with excluded := some (options.excluded.getD [] ++ [value]) }
  | .group => .ok { options with group := some value }

/-- Takes in options in order. -/
def giveAll (options : Options) (given : List (Switch × Value)) : Except Stop Options :=
  given.foldlM (fun options (switch, value) => options.give switch value) options

/-- The projects that scripts are written for. -/
def selection (options : Options) : Selection :=
  match options.only with
  | none => .all
  | some (.text name) => .only name
  | some .nothing => .unnamed

end Options

structure Invocation where
  /-- The directory of the build. -/
  directory : FilePath
  options : Options
  deriving DecidableEq, Repr

namespace Invocation

/-- The request that an invocation makes. An output directory or a group given nothing is as one
not given. -/
def request (i : Invocation) : Request where
  directory := i.directory
  output := (i.options.output.bind Value.text?).map FilePath.ofText
  dryRun := i.options.dryRun
  mode := (i.options.mode.map Mode.text).getD Text.absent
  selection := i.options.selection
  excluded := i.options.excluded.map (List.filterMap Value.text?)
  group := i.options.group.bind Value.text?

/-- Whether an exclusion is given nothing. -/
def excludesUnnamed (i : Invocation) : Bool :=
  (i.options.excluded.getD []).contains .nothing

/-- What an invocation leads to. An exclusion without a name breaks off a run that nothing stands
in the way of. -/
def run (i : Invocation) (tree : FileTree) : Outcome :=
  match i.request.plan tree, i.excludesUnnamed with
  | .ok _, true => Outcome.ofFailure .unnamedExclusion tree
  | _, _ => i.request.run tree

end Invocation

end BuildChain.CommandLine
