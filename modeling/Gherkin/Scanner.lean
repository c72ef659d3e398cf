import Gherkin.Source

/-!
# Scanning

A scanner numbers the lines of a source and drops the byte order mark of the first one.  After the
last line it reads the end of the source, as often as it is asked.
-/

namespace Gherkin

/-- What is still to be read of a source, and the number of lines that have been read. -/
structure Scanner where
  source : Source
  line : Nat := 0

namespace Scanner

/-- The characters of a line without the byte order mark, if it is the first line. -/
def dropMark (number : Nat) : List Char → List Char
  | c :: cs => if number = 1 && c = '\uFEFF' then cs else c :: cs
  | [] => []

/-- The token at the end of the source. -/
def atEnd (s : Scanner) : Token :=
  .eof (s.line + 1)

/-- The next token.  A line that cannot be read is not counted. -/
def read (s : Scanner) : Except ScanError Token × Scanner :=
  match s.source with
  | [] => (.ok s.atEnd, s)
  | .line chars :: source =>
    let number := s.line + 1
    (.ok (.ofLine ⟨dropMark number chars⟩ number), ⟨source, number⟩)
  | .fault fault :: source => (.error ⟨s.line + 1, fault⟩, ⟨source, s.line⟩)

end Scanner
end Gherkin
