import Gherkin.Line

/-!
# Table cells

A table row is a line of cells between bars.  A backslash pairs with the character behind it: the
pairs `\n`, `\|` and `\\` stand for a line break, a bar and a backslash, and any other pair stands
for its two characters.  Only a bar outside a pair separates cells.  What stands before the first
bar and behind the last one belongs to no cell.
-/

namespace Gherkin

/-- The units that a table row is read in. -/
inductive CellUnit where
  | bar
  | plain (c : Char)
  | escaped (c : Char)
deriving DecidableEq

namespace CellUnit

/-- The number of characters that a unit takes on its line. -/
def width : CellUnit → Nat
  | bar | plain _ => 1
  | escaped _ => 2

/-- The characters that a unit adds to the text of its cell. -/
def value : CellUnit → List Char
  | bar => ['|']
  | plain c => [c]
  | escaped 'n' => ['\n']
  | escaped '|' => ['|']
  | escaped '\\' => ['\\']
  | escaped c => ['\\', c]

/-- The units of a text.  A backslash at its very end pairs with nothing. -/
def ofChars : List Char → List CellUnit
  | [] => []
  | '|' :: cs => bar :: ofChars cs
  | ['\\'] => [plain '\\']
  | '\\' :: c :: cs => escaped c :: ofChars cs
  | c :: cs => plain c :: ofChars cs

end CellUnit

/--
The cell with the text `content` that starts in column `start`, right behind its bar.  Its column
is that of the first character of its text that is not blank, counted in characters of the text,
or `start` when all of the text is blank.
-/
def Span.ofCell (start : Nat) (content : List Char) : Span where
  column :=
    let blanks := (content.takeWhile Text.isBlank).length
    start + if blanks = content.length then 0 else blanks
  text := String.ofList (Text.trim content)

/-- The cells of the line, read as a table row: what stands between its first and last bar. -/
def Line.cells (l : Line) : List Span :=
  let pieces := (CellUnit.ofChars l.trimmed).splitOnP (· == .bar)
  (Text.place CellUnit.width (l.indent + 1) pieces).tail.dropLast.map fun (start, units) =>
    .ofCell start (units.flatMap CellUnit.value)

end Gherkin
