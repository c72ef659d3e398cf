import Gherkin.Document

/-!
# Documents without places

What a document says does not depend on where its parts stand.  Two documents
say the same when they agree once all places have been taken out of them.
-/

namespace Gherkin

/-- The place of everything in a document without places. -/
def nowhere : Location :=
  ⟨0, 0⟩

def Comment.unplaced (c : Comment) : Comment :=
  { c with location := nowhere }

def Tag.unplaced (t : Tag) : Tag :=
  { t with location := nowhere }

def TableCell.unplaced (c : TableCell) : TableCell :=
  { c with location := nowhere }

def TableRow.unplaced (r : TableRow) : TableRow where
  location := nowhere
  cells := r.cells.map TableCell.unplaced

def StepArgument.unplaced : StepArgument → StepArgument
  | dataTable t => .dataTable ⟨nowhere, t.rows.map TableRow.unplaced⟩
  | docString d => .docString { d with location := nowhere }

def Step.unplaced (s : Step) : Step where
  location := nowhere
  comments := s.comments.map Comment.unplaced
  keyword := s.keyword
  text := s.text
  argument := s.argument.map StepArgument.unplaced

def Title.unplaced (t : Title) : Title :=
  { t with location := nowhere, comments := t.comments.map Comment.unplaced }

def Examples.unplaced (e : Examples) : Examples where
  toTitle := e.toTitle.unplaced
  tags := e.tags.map Tag.unplaced
  header := e.header.map TableRow.unplaced
  body := e.body.map TableRow.unplaced

def Definition.unplaced : Definition → Definition
  | background b => .background ⟨b.toTitle.unplaced, b.steps.map Step.unplaced⟩
  | scenario s =>
    .scenario
      ⟨s.toTitle.unplaced, s.tags.map Tag.unplaced, s.steps.map Step.unplaced⟩
  | outline o =>
    .outline
      ⟨o.toTitle.unplaced, o.tags.map Tag.unplaced, o.steps.map Step.unplaced,
        o.examples.map Examples.unplaced⟩

def Feature.unplaced (f : Feature) : Feature where
  toTitle := f.toTitle.unplaced
  tags := f.tags.map Tag.unplaced
  definitions := f.definitions.map Definition.unplaced
  language := f.language

/-- The document with all its parts nowhere. -/
def Document.unplaced (d : Document) : Document :=
  ⟨d.feature.map Feature.unplaced⟩

end Gherkin
