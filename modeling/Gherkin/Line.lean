import Gherkin.Location
import Gherkin.Text.Blank
import Gherkin.Text.Pieces

/-!
# Source lines

One line of a source text, without its terminator.  What follows the leading blanks decides what a
line means, and how many leading blanks there are decides its column.
-/

namespace Gherkin

/-- A line of a source text. -/
structure Line where
  chars : List Char
deriving DecidableEq

namespace Line

/-- The line that a string holds. -/
def ofString (s : String) : Line :=
  ⟨s.toList⟩

/-- The line as it is written. -/
def raw (l : Line) : String :=
  String.ofList l.chars

/-- The number of leading blanks. -/
def indent (l : Line) : Nat :=
  (l.chars.takeWhile Text.isBlank).length

/-- The line without its leading blanks. -/
def trimmed (l : Line) : List Char :=
  Text.trimStart l.chars

/-- The line without leading and trailing blanks. -/
def value (l : Line) : String :=
  String.ofList (Text.trim l.chars)

/-- A line is empty when it holds nothing but blanks. -/
def isEmpty (l : Line) : Bool :=
  l.trimmed.isEmpty

/--
The line without its first `n` characters, or without its leading blanks when it has fewer than
`n` of them.
-/
def dropIndent (l : Line) (n : Nat) : List Char :=
  if l.indent < n then l.trimmed else l.chars.drop n

/-- What follows `opening` on a line that starts with it behind the leading blanks. -/
def after? (l : Line) (opening : String) : Option (List Char) :=
  opening.toList.isPrefixOf? l.trimmed

/-- A line starts with `opening` when its first characters behind the leading blanks are those. -/
def startsWith (l : Line) (opening : String) : Bool :=
  (l.after? opening).isSome

/-- What follows `opening`, trimmed. -/
def rest? (l : Line) (opening : String) : Option String :=
  (l.after? opening).map fun cs => String.ofList (Text.trim cs)

/-- The trimmed title of a line that starts with a keyword and a colon right behind it. -/
def title? (l : Line) (keyword : String) : Option String :=
  match l.after? keyword with
  | some (':' :: cs) => some (String.ofList (Text.trim cs))
  | _ => none

/-- The words of the line: its maximal runs of characters that are not blank. -/
def words (l : Line) : List Span :=
  (Text.words Text.isBlank (l.indent + 1) l.trimmed).map fun (column, word) =>
    ⟨column, String.ofList word⟩

end Line
end Gherkin
