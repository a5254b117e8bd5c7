import BuildChain.CommandLine.Switch
import BuildChain.Run.Plan
import BuildChain.Text.Quoted

/-! # Faults of a command line

A command line at fault is refused before anything is run. The first fault found is the one told.
-/

namespace BuildChain.CommandLine

inductive Error
  | ambiguous (word : Text) (switches : List Switch)
  /-- A text is attached to an option that takes no value. -/
  | ignoredValue (switch : Switch) (value : Text)
  | missingValue (switch : Switch)
  | invalidMode (mode : Text)
  | missingDirectory
  | unrecognized (words : List Text)
  deriving DecidableEq, Repr

def Error.message : Error → Text
  | ambiguous word switches =>
    "ambiguous option: " ++ word ++ " could match " ++
      Text.join ", " (switches.map Switch.longForm)
  | ignoredValue switch value =>
    "argument " ++ switch.label ++ ": ignored explicit argument " ++ Text.quoted value
  | missingValue switch =>
    "argument " ++ switch.label ++ ": expected one argument"
  | invalidMode mode =>
    "argument " ++ Switch.mode.label ++ ": invalid choice: " ++ Text.quoted mode ++
      " (choose from " ++ Text.join ", " (Mode.all.map fun m => Text.quoted m.text) ++ ")"
  | missingDirectory => "the following arguments are required: project"
  | unrecognized words => "unrecognized arguments: " ++ Text.join " " words

/-- Why there is nothing to run. -/
inductive Stop
  | help
  | error (error : Error)
  deriving DecidableEq, Repr

end BuildChain.CommandLine
