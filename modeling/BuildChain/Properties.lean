import BuildChain.Table
import BuildChain.Text.Blank

/-! # Properties files

A properties file holds one entry a line, a key and its value. A backslash at the end of a line
continues the entry on the next one, and lines that start with `#` or `!` are comments.
-/

namespace BuildChain.Properties

open Text

def isComment (line : Text) : Bool :=
  line.head?.any fun c => c == .char '#' || c == .char '!'

/-- The lines with their continuations, given the beginning of one that is under way. Blank lines
and comments are left out, except as continuations. A beginning that is empty counts as none. -/
def logicalLines : (pending : Text) → (lines : List Text) → List Text
  | pending, [] => if pending.isEmpty then [] else [pending]
  | pending, line :: lines =>
    let line := strip line
    if pending.isEmpty && (line.isEmpty || isComment line) then logicalLines [] lines
    else if line.getLast? = some '\\' then logicalLines (pending ++ line.dropLast) lines
    else (pending ++ line) :: logicalLines [] lines

/-- The characters that end a key. -/
def endsKey (c : CodePoint) : Bool :=
  c == '=' || c == ':' || isBlank c

/-- What follows the separator of key and value, blanks around it included. -/
def afterSeparator (t : Text) : Text :=
  match skipBlanks t with
  | c :: rest => if c = '=' ∨ c = ':' then skipBlanks rest else c :: rest
  | [] => []

/-- The entry of a line. A line without a key holds none. -/
def entry? (line : Text) : Option (Text × Text) :=
  match line.takeWhile (!endsKey ·), line.dropWhile (!endsKey ·) with
  | [], _ => none
  | key, rest => some (key, trimEnd isBlank (afterSeparator rest))

/-- The entries of a properties file. -/
def parse (t : Text) : Entries :=
  Table.ofList ((logicalLines [] (lines t)).filterMap entry?)

end BuildChain.Properties
