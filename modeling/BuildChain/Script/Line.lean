import BuildChain.Text.Basic

/-! # Lines of a script

The expressions and blocks that the generated scripts are made of. A text is written between
double quotes as it is.
-/

namespace BuildChain.Script

def literal (t : Text) : Text :=
  "\"" ++ t ++ "\""

/-- The list of the given texts. -/
def listOf (ts : List Text) : Text :=
  "listOf(" ++ Text.join ", " (ts.map literal) ++ ")"

/-- A call with a text as its only argument. -/
def call (function argument : Text) : Text :=
  function ++ "(" ++ literal argument ++ ")"

/-- The line that opens a block. -/
def opening (head : Text) : Text :=
  head ++ " \x7b"

def closing : Text :=
  "\x7d"

/-- A block of a single line. -/
def oneLine (head body : Text) : Text :=
  opening head ++ " " ++ body ++ " \x7d"

def indent (line : Text) : Text :=
  "    " ++ line

/-- The lines of a block. -/
def block (head : Text) (body : List Text) : List Text :=
  opening head :: body.map indent ++ [closing]

end BuildChain.Script
