import BuildChain.Text.Printable
import BuildChain.Text.Utf8

/-! # Quoted texts

The form in which messages show a text: between single quotes, or between double quotes if it
holds single quotes only. Characters that could not be told apart by eye become escapes.
-/

namespace BuildChain.Text

/-- The escape of a character that is not shown as it is, shortest form first. -/
def escape (c : CodePoint) : Text :=
  if c.toNat ≤ 0xff then "\\x" ++ hexDigits 2 c.toNat
  else if c.toNat ≤ 0xffff then "\\u" ++ hexDigits 4 c.toNat
  else "\\U" ++ hexDigits 8 c.toNat

/-- One character of a text that stands between `quote`s. -/
def quotedChar (quote c : CodePoint) : Text :=
  if c = quote ∨ c = '\\' then ['\\', c]
  else if c = '\t' then "\\t"
  else if c = '\n' then "\\n"
  else if c = '\r' then "\\r"
  else if isPrintable c then [c]
  else escape c

def quoted (t : Text) : Text :=
  let quote := if t.contains (.char '\'') && !t.contains (.char '"') then .char '"' else .char '\''
  quote :: t.flatMap (quotedChar quote) ++ [quote]

end BuildChain.Text
