import Mathlib.Data.List.Infix
import BuildChain.Settings.Script

/-! # Settings documents

A document is a settings script in the usual literal forms, one statement or comment after the
other. Its text and the build that it declares are both given item by item, without reading the
text.
-/

namespace BuildChain.Settings

open Text

/-- The characters that end a plain text. -/
def isBreak (c : CodePoint) : Bool :=
  isBlank c || isQuote c || c == '\\' || c == '(' || c == ')' || c == '='

/-- A text that stands between quotes as it is. -/
structure PlainText where
  text : Text
  ne_nil : text ≠ []
  not_break : text.any isBreak = false

structure LineContent where
  text : Text
  newline_notMem : .char '\n' ∉ text
  return_notMem : .char '\r' ∉ text

structure BlockContent where
  text : Text
  not_infix : ¬ [.char '*', .char '/'] <:+: text

inductive Quote
  | single
  | double

def Quote.char : Quote → CodePoint
  | single => '\''
  | double => '"'

/-- What may stand after a comma. -/
inductive Filler
  | space
  | newline
  | block (content : BlockContent)
  | line (content : LineContent)

def Filler.text : Filler → Text
  | space => " "
  | newline => "\n"
  | block content => "/*" ++ content.text ++ "*/"
  | line content => "//" ++ content.text ++ "\n"

/-- The parts that the text of an item is put together from. -/
inductive Chunk
  | code (text : Text)
  | quoted (quote : Quote) (content : PlainText)
  | filler (filler : Filler)

def Chunk.text : Chunk → Text
  | code t => t
  | quoted quote content => quote.char :: content.text ++ [quote.char]
  | filler f => f.text

/-- An argument that is not the first, with what stands between the comma and it. -/
structure Further where
  gap : List Filler
  argument : PlainText

def Further.chunks (quote : Quote) (further : Further) : List Chunk :=
  .code "," :: further.gap.map .filler ++ [.quoted quote further.argument]

/-- The arguments of an include statement, of which there is at least one. -/
structure ArgumentList where
  first : PlainText
  further : List Further

namespace ArgumentList

def chunks (quote : Quote) (list : ArgumentList) : List Chunk :=
  .quoted quote list.first :: list.further.flatMap (Further.chunks quote)

def texts (list : ArgumentList) : List Text :=
  list.first.text :: list.further.map (·.argument.text)

end ArgumentList

inductive Item
  | lineComment (content : LineContent)
  | blockComment (content : BlockContent)
  /-- `include("…", …)`, where a comma may follow the last argument. -/
  | call (list : ArgumentList) (trailing : Option (List Filler))
  /-- `include '…', …` -/
  | command (list : ArgumentList)
  | rootName (name : PlainText)
  | directory (path target : PlainText)

/-- A comma after the last argument. -/
def trailingChunks : Option (List Filler) → List Chunk
  | none => []
  | some gap => .code "," :: gap.map .filler

namespace Item

def chunks : Item → List Chunk
  | lineComment content => [.filler (.line content)]
  | blockComment content => [.filler (.block content), .code "\n"]
  | call list trailing =>
    .code "include(" :: (list.chunks .double ++ trailingChunks trailing) ++
      [.code ")", .code "\n"]
  | command list => .code "include " :: list.chunks .single ++ [.code "\n"]
  | rootName name => [.code "rootProject.name = ", .quoted .double name, .code "\n"]
  | directory path target =>
    [.code "project(", .quoted .double path, .code ").projectDir = file(",
      .quoted .double target, .code ")", .code "\n"]

def arguments : Item → List Text
  | call list _ | command list => list.texts
  | _ => []

def rootName? : Item → Option Text
  | rootName name => some name.text
  | _ => none

/-- The project that is moved and the directory that it is moved to, both as written. -/
def move? : Item → Option (Text × Text)
  | directory path target => some (path.text, target.text)
  | _ => none

end Item

abbrev Document := List Item

namespace Document

def chunks (doc : Document) : List Chunk :=
  doc.flatMap Item.chunks

def text (doc : Document) : Text :=
  doc.chunks.flatMap Chunk.text

/-- The projects by their segments, each with those above it. The order is that of the first
mention. -/
def projects (doc : Document) : List (List Text) :=
  ((doc.flatMap Item.arguments).flatMap fun t => (pieces (· == ':') t).inits.tail).eraseDups

/-- The directory that the last statement about a project moves it to. -/
def movedTo? (doc : Document) (segments : List Text) : Option Text :=
  ((doc.filterMap Item.move?).filter (pieces (· == ':') ·.1 = segments)).getLast?.map
    fun move => trimEnd (· == '/') move.2

def project (doc : Document) (segments : List Text) : Project where
  path := segments.flatMap (':' :: ·)
  name := segments.getLastD []
  directory := (doc.movedTo? segments).getD (join "/" segments)

/-- The build that a document declares in a directory named `directoryName`. -/
def build (doc : Document) (directoryName : Text) (properties : Entries) : Build where
  rootName := (doc.findSome? Item.rootName?).getD directoryName
  projects := doc.projects.map doc.project
  properties := properties

end Document

end BuildChain.Settings
