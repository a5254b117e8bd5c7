import BuildChain.Text.Digit

/-! # Words of the command line

A command line is a list of words. Each is classified on its own before any is used: it names an
option, or it is an argument, or it looks like an option and names none.
-/

namespace BuildChain.CommandLine

/-- The options of the program. -/
inductive Switch
  | help
  | output
  | dryRun
  | mode
  | project
  | exclude
  | group
  deriving DecidableEq, Repr

namespace Switch

def all : List Switch :=
  [help, output, dryRun, mode, project, exclude, group]

/-- The name that two dashes come before. -/
def name : Switch → Text
  | help => "help"
  | output => "output"
  | dryRun => "dry-run"
  | mode => "mode"
  | project => "project"
  | exclude => "exclude"
  | group => "group"

/-- The letter that one dash comes before. -/
def letter : Switch → CodePoint
  | help => 'h'
  | output => 'o'
  | dryRun => 'n'
  | mode => 'm'
  | project => 'p'
  | exclude => 'x'
  | group => 'g'

def takesValue : Switch → Bool
  | help | dryRun => false
  | _ => true

def longForm (switch : Switch) : Text :=
  "--" ++ switch.name

def shortForm (switch : Switch) : Text :=
  ['-', switch.letter]

/-- Both forms, as messages name the option. -/
def label : Switch → Text
  | help => "-h/--help"
  | switch => switch.longForm ++ "/" ++ switch.shortForm

def ofLetter? (letter : CodePoint) : Option Switch :=
  all.find? (·.letter = letter)

/-- The options whose names begin with the given text. -/
def completions (beginning : Text) : List Switch :=
  all.filter fun switch => (Text.after? beginning switch.name).isSome

end Switch

inductive Word
  | argument (text : Text)
  /-- All words after this one are arguments. -/
  | endOfOptions
  /-- An option by its name, with the value after an equals sign. -/
  | long (switch : Switch) (value : Option Text)
  /-- An option by its letter, with the text attached to the letter. -/
  | short (switch : Switch) (attached : Option Text)
  | unknown (text : Text)
  deriving DecidableEq, Repr

namespace Word

/-- The value after the first equals sign, if there is one. -/
def assigned? (t : Text) : Option Text :=
  Text.after? "=" (t.dropWhile (· != '='))

/-- The text attached to the letter of an option, if there is one. An equals sign right after the
letter is not part of it. -/
def attached? : (rest : Text) → Option Text
  | [] => none
  | .char '=' :: t => some t
  | t => some t

/-- A word that starts with a dash and names no option. Numbers and texts with a space count as
arguments. -/
def ofNameless (word : Text) : Word :=
  if Text.isNegativeNumber word || word.contains ' ' then argument word else unknown word

/-- Classifies a word. A name may be cut short as long as it fits one option only. If it fits
several, these are the error. -/
def ofText : Text → Except (List Switch) Word
  | .char '-' :: .char '-' :: t =>
    match Switch.completions (t.takeWhile (· != '=')) with
    | [switch] => .ok (long switch (assigned? t))
    | [] => .ok (ofNameless ('-' :: '-' :: t))
    | switches => .error switches
  | .char '-' :: c :: t =>
    match Switch.ofLetter? c with
    | some switch => .ok (short switch (attached? t))
    | none => .ok (ofNameless ('-' :: c :: t))
  | word => .ok (argument word)

end Word

end BuildChain.CommandLine
