import BuildChain.Text.Scan

/-! # Comments of a settings script

A script is cut into comments, quoted literals and single characters. A comment marker inside a
literal and a quote inside a comment mean nothing. A quote or a block comment that is never
closed starts no token.
-/

namespace BuildChain.Settings

/-- What follows the quote that closes a literal. A backslash takes the next character with it,
whatever it is. -/
def afterLiteral? (quote : CodePoint) : Text → Option Text
  | [] => none
  | [.char '\\'] => none
  | .char '\\' :: _ :: t => afterLiteral? quote t
  | c :: t => if c = quote then some t else afterLiteral? quote t

/-- What follows the end of a block comment. -/
def afterBlock? : Text → Option Text
  | .char '*' :: .char '/' :: t => some t
  | _ :: t => afterBlock? t
  | [] => none

inductive Token
  | literal (text : Text)
  | comment (text : Text)
  deriving DecidableEq, Repr

namespace Token

/-- The token at the start of a text, with what follows it. -/
def read? : Text → Option (Token × Text)
  | .char '"' :: t => (afterLiteral? '"' t).map (upTo .literal ('"' :: t))
  | .char '\'' :: t => (afterLiteral? '\'' t).map (upTo .literal ('\'' :: t))
  | .char '/' :: .char '/' :: t => some (upTo .comment ('/' :: '/' :: t) (t.dropWhile (· != '\n')))
  | .char '/' :: .char '*' :: t => (afterBlock? t).map (upTo .comment ('/' :: '*' :: t))
  | _ => none
where
  /-- The token that ends where `rest` starts. -/
  upTo (kind : Text → Token) (t rest : Text) : Token × Text :=
    (kind (t.take (t.length - rest.length)), rest)

def text : Token → Text
  | literal t | comment t => t

/-- What is left of a token without the comments: a comment keeps its line breaks alone, so that
all that follows stays on its line. -/
def stripped : Token → Text
  | literal t => t
  | comment t => t.filter (· = '\n')

end Token

/-- The marks of the tokens of a script. -/
def tokenMarks (script : Text) : List (Text.Mark Token) :=
  Text.marks (fun _ => Token.read?) script

/-- The text that a mark leaves of its character without the comments. -/
def strippedMark : Text.Mark Token → Text
  | .start token => token.stripped
  | .inside => []
  | .free c => [c]

/-- The script without its comments. -/
def stripComments (script : Text) : Text :=
  (tokenMarks script).flatMap strippedMark

end BuildChain.Settings
