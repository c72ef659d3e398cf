import Gherkin.Dialect
import Gherkin.Line

/-!
# Tokens

A token is a source line, or the end of the source, with its line number.  Matching a token reads
it as one of the kinds of tokens; a token that is read again forgets its earlier reading.
-/

namespace Gherkin

/-- What a source line can be read as. -/
inductive TokenKind where
  | eof
  | empty
  | comment
  | tagLine
  | featureLine
  | backgroundLine
  | scenarioLine
  | scenarioOutlineLine
  | examplesLine
  | stepLine
  | docStringSeparator
  | tableRow
  | language
  | other
deriving DecidableEq, Inhabited

/-- The name of a kind of tokens in messages. -/
def TokenKind.name : TokenKind → String
  | eof => "#EOF"
  | empty => "#Empty"
  | comment => "#Comment"
  | tagLine => "#TagLine"
  | featureLine => "#FeatureLine"
  | backgroundLine => "#BackgroundLine"
  | scenarioLine => "#ScenarioLine"
  | scenarioOutlineLine => "#ScenarioOutlineLine"
  | examplesLine => "#ExamplesLine"
  | stepLine => "#StepLine"
  | docStringSeparator => "#DocStringSeparator"
  | tableRow => "#TableRow"
  | language => "#Language"
  | other => "#Other"

/-- The parts of a line that matter for one kind of tokens. -/
structure Content where
  keyword : Option String := none
  text : Option String := none
  items : List Span := []
  /-- The number of characters in front of the token. -/
  indent : Nat
deriving DecidableEq

/-- A line read as one kind of tokens, in the dialect that was active then. -/
structure Reading extends Content where
  kind : TokenKind
  dialect : Dialect

/-- A source line, or the end of the source when there is no line, and how it has been read. -/
structure Token where
  line : Option Line
  number : Nat
  reading : Option Reading

namespace Token

/-- A line that has not been read yet. -/
def ofLine (line : Line) (number : Nat) : Token :=
  ⟨some line, number, none⟩

/-- The end of the source, numbered as the line that would stand there. -/
def eof (number : Nat) : Token :=
  ⟨none, number, none⟩

/-- A token without a line stands for the end of the source. -/
def isEof (t : Token) : Bool :=
  t.line.isNone

/-- The token with a new reading in place of any earlier one. -/
def readAs (t : Token) (reading : Reading) : Token :=
  { t with reading := some reading }

/-- The kind that the token has been read as. -/
def kind? (t : Token) : Option TokenKind :=
  t.reading.map Reading.kind

/-- The keyword that the token starts with. -/
def keyword? (t : Token) : Option String :=
  t.reading.bind fun r => r.keyword

/-- The text that the token carries. -/
def text? (t : Token) : Option String :=
  t.reading.bind fun r => r.text

/-- The tags or cells of the token. -/
def items (t : Token) : List Span :=
  (t.reading.map fun r => r.items).getD []

/-- The number of characters in front of the token; none before it has been read. -/
def indent (t : Token) : Nat :=
  (t.reading.map fun r => r.indent).getD 0

/-- The number of leading blanks of the line. -/
def lineIndent (t : Token) : Nat :=
  (t.line.map Line.indent).getD 0

/-- A token has a column once it has been read. -/
def location (t : Token) : Location :=
  ⟨t.number, (t.reading.map fun r => r.indent + 1).getD 0⟩

/-- The trimmed line, for messages. -/
def value (t : Token) : String :=
  (t.line.map Line.value).getD "EOF"

/-- How log records show a token. -/
def display (t : Token) : String :=
  let name := (t.kind?.map TokenKind.name).getD "#None"
  let keyword := t.keyword?.getD ""
  let text := t.text?.getD ""
  s!"{name}: {keyword}/{text}"

end Token
end Gherkin
