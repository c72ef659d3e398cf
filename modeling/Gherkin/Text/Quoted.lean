import Gherkin.Text.Printable

/-!
# Quoted text

A quoted text stands between double quotes and on one line.  Quotes, backslashes and the usual
control characters are written with a backslash, and other characters that have no form of their
own by their code point.
-/

namespace Gherkin.Text

/-- How a character is written in a quoted text. -/
def quoteChar (c : Char) : String :=
  if c = '"' then "\\\""
  else if c = '\\' then "\\\\"
  else if c = '\n' then "\\n"
  else if c = '\t' then "\\t"
  else if c = '\r' then "\\r"
  else if c = Char.ofNat 0 then "\\0"
  else if isPrintable c then c.toString
  else "\\u\x7b" ++ String.ofList (Nat.toDigits 16 c.toNat) ++ "\x7d"

/-- The quoted form of a text. -/
def quote (s : String) : String :=
  "\"" ++ String.join (s.toList.map quoteChar) ++ "\""

end Gherkin.Text
