/-!
# Locations

Lines and columns count from one, and columns count code points.  Column zero says that no column
applies.
-/

namespace Gherkin

/-- A place in a source text. -/
structure Location where
  line : Nat
  column : Nat
deriving DecidableEq, Inhabited

/-- A location is written as its line, a colon and its column. -/
def Location.toString (l : Location) : String :=
  s!"{l.line}:{l.column}"

/-- The words that place a message in its source text. -/
def Location.inWords (l : Location) : String :=
  s!"at line {l.line}, column {l.column}"

/-- A text together with the column of its first character. -/
structure Span where
  column : Nat
  text : String
deriving DecidableEq

end Gherkin
