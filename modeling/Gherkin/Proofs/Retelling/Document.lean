import Gherkin.Proofs.Recovery.Renumbering
import Gherkin.Proofs.Text.Hanging

/-!
# Documents told again

When the lines of a source move, the document that it holds stays the same but
for its places, and perhaps for its comments and descriptions, which hold the
blanks of their lines.  A retelling says what becomes of these three.
-/

namespace Gherkin

/-- What becomes of the places, the comments and the descriptions of a document. -/
structure Retelling where
  place : Location → Location
  comment : Comment → Comment
  description : String → String

variable (T : Retelling)

/-- The tag in its new place. -/
def Tag.retell (t : Tag) : Tag :=
  { t with location := T.place t.location }

/-- The cell in its new place. -/
def TableCell.retell (c : TableCell) : TableCell :=
  { c with location := T.place c.location }

/-- The row and its cells in their new places. -/
def TableRow.retell (r : TableRow) : TableRow where
  location := T.place r.location
  cells := r.cells.map (TableCell.retell T)

/-- The table and its rows in their new places. -/
def DataTable.retell (t : DataTable) : DataTable where
  location := T.place t.location
  rows := t.rows.map (TableRow.retell T)

/-- The doc string in its new place, with the same content. -/
def DocString.retell (d : DocString) : DocString :=
  { d with location := T.place d.location }

/-- What stands below a step, in its new place. -/
def StepArgument.retell : StepArgument → StepArgument
  | dataTable table => .dataTable (table.retell T)
  | docString d => .docString (d.retell T)

/-- The step and what belongs to it. -/
def Step.retell (s : Step) : Step :=
  { s with
    location := T.place s.location
    comments := s.comments.map T.comment
    argument := s.argument.map (StepArgument.retell T) }

/-- The title line and what belongs to it. -/
def Title.retell (t : Title) : Title :=
  { t with
    location := T.place t.location
    comments := t.comments.map T.comment
    description := t.description.map T.description }

/-- The background and its steps. -/
def Background.retell (b : Background) : Background where
  toTitle := b.toTitle.retell T
  steps := b.steps.map (Step.retell T)

/-- The scenario, its tags and its steps. -/
def Scenario.retell (s : Scenario) : Scenario where
  toTitle := s.toTitle.retell T
  tags := s.tags.map (Tag.retell T)
  steps := s.steps.map (Step.retell T)

/-- The examples, their tags and their rows. -/
def Examples.retell (e : Examples) : Examples where
  toTitle := e.toTitle.retell T
  tags := e.tags.map (Tag.retell T)
  header := e.header.map (TableRow.retell T)
  body := e.body.map (TableRow.retell T)

/-- The outline, its tags, its steps and its examples. -/
def ScenarioOutline.retell (o : ScenarioOutline) : ScenarioOutline where
  toTitle := o.toTitle.retell T
  tags := o.tags.map (Tag.retell T)
  steps := o.steps.map (Step.retell T)
  examples := o.examples.map (Examples.retell T)

/-- The same kind of definition. -/
def Definition.retell : Definition → Definition
  | background b => .background (b.retell T)
  | scenario s => .scenario (s.retell T)
  | outline o => .outline (o.retell T)

/-- The feature, its tags and its definitions. -/
def Feature.retell (f : Feature) : Feature where
  toTitle := f.toTitle.retell T
  tags := f.tags.map (Tag.retell T)
  definitions := f.definitions.map (Definition.retell T)
  language := f.language

/-- The document with its feature. -/
def Document.retell (d : Document) : Document :=
  ⟨d.feature.map (Feature.retell T)⟩

/-- The same error in its new place. -/
def SyntaxError.retell (e : SyntaxError) : SyntaxError :=
  { e with location := T.place e.location }

/-- The same error in its new place. -/
def DialectError.retell (e : DialectError) : DialectError :=
  { e with location := T.place e.location }

/-- The same errors in their new places; a line that cannot be read has no column. -/
def Failure.retell : Failure → Failure
  | scan e => .scan { e with line := (T.place ⟨e.line, 0⟩).line }
  | dialect e => .dialect (e.retell T)
  | parse errors => .parse (errors.map (SyntaxError.retell T))

namespace Retelling

/-- What parsing comes to. -/
def outcome : Except Failure Document → Except Failure Document
  | .ok document => .ok (document.retell T)
  | .error failure => .error (failure.retell T)

/-- Lines under other numbers.  Columns and texts stay as they are. -/
def renumbering (f : Nat → Nat) : Retelling where
  place l := l.renumber f
  comment c := { c with location := c.location.renumber f }
  description := id

/-- Lines behind further blanks.  Places move to the right, unless they have no column, comments
start with the blanks, and the lines of descriptions hang behind them. -/
def indenting (blanks : List Char) : Retelling where
  place l := { l with column := if l.column = 0 then 0 else l.column + blanks.length }
  comment c := { c with text := String.ofList (blanks ++ c.text.toList) }
  description s := String.ofList (Text.hang blanks s.toList)

end Retelling

/-! ### Tables -/

/-- The error of an uneven table moves with the rows of the table. -/
theorem unevenError?_map_retell (rows : List TableRow) :
    unevenError? (rows.map (TableRow.retell T)) =
      (unevenError? rows).map (SyntaxError.retell T) :=
  unevenError?_map (fun _ => List.length_map _) (fun _ => rfl) rows

variable {T} in
/-- A data table moves with its rows; one without rows has no place. -/
theorem DataTable.ofRows_map_retell (h : T.place ⟨0, 0⟩ = ⟨0, 0⟩) (rows : List TableRow) :
    DataTable.ofRows (rows.map (TableRow.retell T)) =
      ((DataTable.ofRows rows).map (DataTable.retell T)).mapError (SyntaxError.retell T) := by
  rw [ofRows, ofRows, unevenError?_map_retell]
  cases unevenError? rows with
  | some e => rfl
  | none =>
      cases rows with
      | nil => exact congrArg (fun place => Except.ok (DataTable.mk place [])) h.symm
      | cons row rows => rfl

/-- Whether and as what a language is resolved does not depend on the place that asks for it. -/
theorem Resolver.resolve_retell (r : Resolver) (language : String) (l : Location) :
    r.resolve language (T.place l) =
      (r.resolve language l).mapError (DialectError.retell T) := by
  rw [resolve, resolve]
  cases r.resolution (LanguageTag.normalize language) <;> rfl

end Gherkin
