import Gherkin.Line
import Gherkin.Text.Replace

/-!
# Doc-string separators

A doc string stands between two lines that start with the same separator.  Inside it the separator
is written with a backslash before each of its characters.
-/

namespace Gherkin

/-- What opens and closes a doc string. -/
inductive Separator where
  | quotes
  | backticks
deriving DecidableEq

namespace Separator

/-- The characters of a separator. -/
def text : Separator → String
  | quotes => "\"\"\""
  | backticks => "```"

/-- How the separator is written inside a doc string that it opened. -/
def escaped : Separator → String
  | quotes => "\\\"\\\"\\\""
  | backticks => "\\`\\`\\`"

/-- Turns the written form of the separator back into the separator. -/
def unescape (s : Separator) (cs : List Char) : List Char :=
  Text.replace s.escaped.toList s.text.toList cs

/-- The separator that a line starts with. -/
def ofLine? (l : Line) : Option Separator :=
  [quotes, backticks].find? fun s => l.startsWith s.text

end Separator
end Gherkin
