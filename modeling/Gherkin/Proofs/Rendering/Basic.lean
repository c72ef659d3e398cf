import Gherkin.Proofs.Realisation.Starts
import Gherkin.Proofs.Rendering.Places
import Gherkin.Proofs.Text.Cells
import Gherkin.Proofs.Text.Escapes
import Gherkin.Proofs.Tree.Document

/-!
# Rendering features

A feature that has been written down as such, without a text, a place or a line.
Its pieces carry what makes them readable, so that every such feature has a
rendering.  What a parser makes of the rendering is the content of the feature.
-/

namespace Gherkin

namespace Written

/-! ### Pieces of text -/

/-- A trimmed text on one line. -/
structure Phrase where
  chars : List Char
  trimmed : Text.trim chars = chars
  oneLine : '\n' ∉ chars

/-- What follows the sign of a tag. -/
structure Tag where
  chars : List Char
  noBlank : ∀ c ∈ chars, Text.isBlank c = false

/-- A line of a description, which can only be read as free text. -/
structure FreeLine where
  chars : List Char
  other : Matcher.english.kindOf? ⟨chars⟩ = some .other
  oneLine : '\n' ∉ chars
  noReturn : chars.getLast? ≠ some '\r'

/-- What follows the sign of a comment. -/
structure Remark where
  chars : List Char
  oneLine : '\n' ∉ chars
  noReturn : chars.getLast? ≠ some '\r'

/-- The trimmed text of a cell, which may have several lines. -/
structure Cell where
  chars : List Char
  trimmed : Text.trim chars = chars

/-- A line of a doc string that does not hold the escaped form of its separator. -/
structure ContentLine (s : Separator) where
  chars : List Char
  unescaped : ¬s.escaped.toList <:+: chars
  oneLine : '\n' ∉ chars
  noReturn : chars.getLast? ≠ some '\r'

/-! ### Features -/

/-- A table with at least one row and one column, and rows of one length. -/
structure Table where
  first : List Cell
  rest : List (List Cell)
  columns : first ≠ []
  even : ∀ row ∈ rest, row.length = first.length

/-- A doc string; its type is not empty if it has one. -/
structure DocString where
  separator : Separator
  contentType : Option { type : Phrase // type.chars ≠ [] }
  content : List (ContentLine separator)

/-- What stands below a step. -/
inductive Argument where
  | table (table : Table)
  | docString (docString : DocString)

/-- A step with the comments in front of it. -/
structure Step where
  comments : List Remark
  keyword : String
  isKeyword : keyword ∈ Dialect.english.keywords .step
  text : Phrase
  argument : Option Argument

/-- A name and a description. -/
structure Heading where
  name : Phrase
  description : List FreeLine

/-- A name, a description and steps. -/
structure Block where
  heading : Heading
  steps : List Step

/-- Examples for an outline. -/
structure Examples where
  tags : List Tag
  heading : Heading
  table : Table

/-- A scenario, or an outline if there is a list of examples. -/
structure Scenario where
  tags : List Tag
  block : Block
  examples : Option (List Examples)

/-- A feature. -/
structure Feature where
  tags : List Tag
  heading : Heading
  background : Option Block
  scenarios : List Scenario

/-! ### Renderings -/

/-- A text behind blanks. -/
def indented (n : Nat) (cs : List Char) : Line :=
  ⟨List.replicate n ' ' ++ cs⟩

/-- The line between blocks. -/
def gap : Entry :=
  .blank ⟨[]⟩

/-- A tag with its sign. -/
def Tag.text (t : Tag) : List Char :=
  '@' :: t.chars

/-- The line of tags, if there are any. -/
def tagEntries (n : Nat) : List Tag → List Entry
  | [] => []
  | tag :: tags =>
    [.line .tagLine (indented n ([' '].intercalate ((tag :: tags).map Tag.text)))]

/-- A title line and a description, which stands two blanks further in. -/
def Heading.entries (kind : TokenKind) (n : Nat) (keyword : String) (h : Heading) : List Entry :=
  .line kind (indented n (keyword.toList ++ ':' :: ' ' :: h.name.chars)) ::
    h.description.map fun l => .line .other (indented (n + 2) l.chars)

/-- A row of a table. -/
def rowEntry (cells : List Cell) : Entry :=
  .line .tableRow (indented 6 (Text.rowText (cells.map Cell.chars)))

/-- The rows of a table. -/
def Table.entries (t : Table) : List Entry :=
  (t.first :: t.rest).map rowEntry

/-- The type of a doc string, if it has one. -/
def DocString.typeChars (d : DocString) : List Char :=
  d.contentType.elim [] fun type => type.val.chars

/-- The lines of a doc string, with its separator escaped inside it. -/
def DocString.entries (d : DocString) : List Entry :=
  .line .docStringSeparator (indented 6 (d.separator.text.toList ++ d.typeChars)) ::
    (d.content.map fun l => .line .other (indented 6 (d.separator.escape l.chars))) ++
      [.line .docStringSeparator (indented 6 d.separator.text.toList)]

/-- The lines below a step. -/
def Argument.entries : Argument → List Entry
  | table t => t.entries
  | docString d => d.entries

/-- A comment. -/
def Remark.text (r : Remark) : List Char :=
  List.replicate 4 ' ' ++ '#' :: r.chars

/-- A step, behind its comments. -/
def Step.entries (s : Step) : List Entry :=
  (s.comments.map fun r => .comment ⟨r.text⟩) ++
    .line .stepLine (indented 4 (s.keyword.toList ++ s.text.chars)) ::
      s.argument.elim [] Argument.entries

/-- A heading and its steps. -/
def Block.entries (kind : TokenKind) (keyword : String) (b : Block) : List Entry :=
  b.heading.entries kind 2 keyword ++ b.steps.flatMap Step.entries

/-- Examples, behind a gap. -/
def Examples.entries (e : Examples) : List Entry :=
  gap :: (tagEntries 4 e.tags ++ e.heading.entries .examplesLine 4 "Examples" ++
    e.table.entries)

/-- A scenario or an outline, behind a gap. -/
def Scenario.entries (s : Scenario) : List Entry :=
  gap :: (tagEntries 2 s.tags ++
    match s.examples with
    | none => s.block.entries .scenarioLine "Scenario"
    | some examples =>
      s.block.entries .scenarioOutlineLine "Scenario Outline" ++
        examples.flatMap Examples.entries)

/-- A background, behind a gap. -/
def backgroundEntries (b : Block) : List Entry :=
  gap :: b.entries .backgroundLine "Background"

namespace Feature

/-- The lines of a feature, with what they are meant as. -/
def entries (f : Feature) : List Entry :=
  tagEntries 0 f.tags ++ f.heading.entries .featureLine 0 "Feature" ++
    f.background.elim [] backgroundEntries ++ f.scenarios.flatMap Scenario.entries

/-- The lines of a feature as they are written. -/
def lines (f : Feature) : List (List Char) :=
  f.entries.map fun e => e.text.chars

/-- The text of a feature: its lines, each with a line break behind it. -/
def render (f : Feature) : String :=
  String.ofList (f.lines.flatMap fun line => line ++ ['\n'])

end Feature

/-! ### Contents -/

/-- The tag in a document. -/
def Tag.content (t : Tag) : Gherkin.Tag :=
  ⟨nowhere, String.ofList t.text⟩

/-- The row in a document. -/
def rowContent (cells : List Cell) : TableRow :=
  ⟨nowhere, cells.map fun c => ⟨nowhere, String.ofList c.chars⟩⟩

/-- The argument in a document: the lines of a doc string are joined. -/
def Argument.content : Argument → StepArgument
  | table t => .dataTable ⟨nowhere, (t.first :: t.rest).map rowContent⟩
  | docString d =>
    .docString
      { location := nowhere
        contentType := d.contentType.map fun type => String.ofList type.val.chars
        content := "\n".intercalate (d.content.map fun l => String.ofList l.chars) }

/-- The comment in a document, where it is kept as it is written. -/
def Remark.content (r : Remark) : Comment :=
  ⟨nowhere, String.ofList r.text⟩

/-- The step in a document. -/
def Step.content (s : Step) : Gherkin.Step where
  location := nowhere
  comments := s.comments.map Remark.content
  keyword := s.keyword
  text := String.ofList s.text.chars
  argument := s.argument.map Argument.content

/-- The texts of the lines of a description, which stands behind `n` blanks. -/
def Heading.lines (n : Nat) (h : Heading) : List String :=
  h.description.map fun l => (indented n l.chars).raw

/-- The title in a document: the lines of the description are joined and
trimmed. -/
def Heading.content (n : Nat) (keyword : String) (h : Heading) : Title where
  location := nowhere
  comments := []
  keyword := keyword
  name := String.ofList h.name.chars
  description := describe (h.lines (n + 2))

/-- The examples in a document. -/
def Examples.content (e : Examples) : Gherkin.Examples :=
  { e.heading.content 4 "Examples" with
    tags := e.tags.map Tag.content
    header := some (rowContent e.table.first)
    body := e.table.rest.map rowContent }

/-- The scenario or outline in a document. -/
def Scenario.content (s : Scenario) : Definition :=
  match s.examples with
  | none =>
    .scenario
      { s.block.heading.content 2 "Scenario" with
        tags := s.tags.map Tag.content
        steps := s.block.steps.map Step.content }
  | some examples =>
    .outline
      { s.block.heading.content 2 "Scenario Outline" with
        tags := s.tags.map Tag.content
        steps := s.block.steps.map Step.content
        examples := examples.map Examples.content }

/-- The background in a document. -/
def Block.background (b : Block) : Definition :=
  .background
    { b.heading.content 2 "Background" with steps := b.steps.map Step.content }

/-- The feature in a document. -/
def Feature.content (f : Feature) : Gherkin.Feature :=
  { f.heading.content 0 "Feature" with
    tags := f.tags.map Tag.content
    definitions := (f.background.map Block.background).toList ++ f.scenarios.map Scenario.content
    language := "en" }

end Written
end Gherkin
