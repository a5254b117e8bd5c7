import BuildChain.Text.CharRange

/-! # Blanks and lines

The blank characters, the characters that end a line, and cutting a text into its lines.
-/

namespace BuildChain.Text

/-- The blanks: tab to carriage return, the four separators before the space, the space, and the
spaces and line breaks beyond ASCII. -/
def blankRanges : List (Nat × Nat) := [
  (0x09, 0x0d), (0x1c, 0x20), (0x85, 0x85), (0xa0, 0xa0), (0x1680, 0x1680), (0x2000, 0x200a),
  (0x2028, 0x2029), (0x202f, 0x202f), (0x205f, 0x205f), (0x3000, 0x3000)]

def isBlank (c : CodePoint) : Bool :=
  inRanges blankRanges c

abbrev strip (t : Text) : Text :=
  trim isBlank t

abbrev skipBlanks (t : Text) : Text :=
  t.dropWhile isBlank

/-- The characters that end a line. -/
def isLineBreak (c : CodePoint) : Bool :=
  inRanges [(0x0a, 0x0d), (0x1c, 0x1e), (0x85, 0x85), (0x2028, 0x2029)] c

/-- The lines without their line breaks. A carriage return with a newline is one line break, and
a line break at the end opens no further line. -/
def lines : Text → List Text
  | [] => []
  | .char '\r' :: .char '\n' :: t => [] :: lines t
  | c :: t =>
    if isLineBreak c then [] :: lines t
    else match lines t with
      | [] => [[c]]
      | l :: ls => (c :: l) :: ls

/-- Writes every line ending of a file as a newline. -/
def foldNewlines : Text → Text
  | [] => []
  | .char '\r' :: .char '\n' :: t => '\n' :: foldNewlines t
  | c :: t => (if c = '\r' then '\n' else c) :: foldNewlines t

end BuildChain.Text
