import BuildChain.Proofs.Text.Lines
import BuildChain.Properties

/-! # Properties documents

A document is a properties file item by item: blank lines, comments and entries, whose values may
be cut into pieces on lines of their own. Its text and its entries are both given without reading
the text.
-/

namespace BuildChain.Properties

open Text

/-- Blanks within a line. -/
structure BlankText where
  text : Text
  blank : text.all isBlank = true
  in_line : text.any isLineBreak = false

/-- Spaces and tabs. -/
structure Padding where
  text : Text
  space_or_tab : text.all (fun c => c == ' ' || c == '\t') = true

inductive CommentMark
  | hash
  | exclamation

def CommentMark.char : CommentMark → CodePoint
  | hash => '#'
  | exclamation => '!'

/-- What may follow the mark of a comment. A backslash at the end means nothing. -/
structure CommentText where
  text : Text
  in_line : text.any isLineBreak = false

inductive Separator
  | equals
  | colon

def Separator.char : Separator → CodePoint
  | equals => '='
  | colon => ':'

structure KeyText where
  text : Text
  ne_nil : text ≠ []
  not_blank : text.any isBlank = false
  not_special : text.any (fun c => c == '=' || c == ':' || c == '\\') = false
  not_comment : ∀ mark : CommentMark, text.head? ≠ some mark.char

/-- A part of a value. The blanks at its end set aside, it does not end in a backslash, which would
continue the line. -/
structure Piece where
  text : Text
  in_line : text.any isLineBreak = false
  not_backslash : (trimEnd isBlank text).getLast? ≠ some '\\'

/-- A piece on a line of its own, without the blanks in front of it. -/
structure Continuation where
  indent : Padding
  piece : Piece
  not_blank : piece.text.head?.any isBlank = false

def Continuation.body (continuation : Continuation) : Text :=
  continuation.indent.text ++ continuation.piece.text

structure Entry where
  key : KeyText
  before : Padding
  separator : Separator
  after : Padding
  first : Piece
  further : List Continuation

namespace Entry

/-- The key and its separator, up to where the value starts. -/
def head (entry : Entry) : Text :=
  entry.key.text ++ entry.before.text ++ [entry.separator.char]

/-- The first line of an entry, apart from a backslash at its end. -/
def body (entry : Entry) : Text :=
  entry.head ++ (entry.after.text ++ entry.first.text)

/-- The lines of an entry, apart from the backslashes at their ends. -/
def bodies (entry : Entry) : List Text :=
  entry.body :: entry.further.map Continuation.body

/-- The lines of an entry, all of which but the last end in a backslash. -/
def lines (entry : Entry) : List Text :=
  entry.bodies.dropLast.map (· ++ [CodePoint.char '\\']) ++ entry.bodies.getLast?.toList

/-- The lines of an entry with a backslash after the last piece, too. -/
def openLines (entry : Entry) : List Text :=
  entry.bodies.map (· ++ [CodePoint.char '\\'])

/-- The value with the cuts undone. -/
def value (entry : Entry) : Text :=
  strip (entry.first.text ++ entry.further.flatMap (·.piece.text))

end Entry

inductive Item
  | blank (blanks : BlankText)
  | comment (indent : BlankText) (mark : CommentMark) (content : CommentText)
  | entry (entry : Entry)

namespace Item

def lines : Item → List Text
  | blank blanks => [blanks.text]
  | comment indent mark content => [indent.text ++ mark.char :: content.text]
  | entry e => e.lines

def asEntry : Item → Option Entry
  | entry e => some e
  | _ => none

end Item

structure Document where
  items : List Item
  /-- An entry at the very end that is left open by a backslash after its last piece. -/
  openEntry : Option Entry
  ending : LineEnding
  /-- Whether a line ending follows the last line. -/
  ended : Bool

namespace Document

def lines (doc : Document) : List Text :=
  doc.items.flatMap Item.lines ++ doc.openEntry.toList.flatMap Entry.openLines

def text (doc : Document) : Text :=
  doc.ending.write doc.ended doc.lines

def allEntries (doc : Document) : List Entry :=
  doc.items.filterMap Item.asEntry ++ doc.openEntry.toList

/-- The keys in the order of their first occurrence. -/
def keys (doc : Document) : List Text :=
  (doc.allEntries.map (·.key.text)).eraseDups

/-- The value that the last entry of a key has. -/
def value? (doc : Document) (key : Text) : Option Text :=
  (doc.allEntries.filter (·.key.text = key)).getLast?.map Entry.value

/-- The entries that a document stands for. -/
def entries (doc : Document) : Entries :=
  doc.keys.filterMap fun key => (doc.value? key).map (key, ·)

end Document

end BuildChain.Properties
