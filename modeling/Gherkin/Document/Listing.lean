import Gherkin.Document
import Gherkin.Text.Quoted

/-!
# Listings of documents

A listing shows every field of a document, nested values indented by four spaces, each on lines of
its own and with a comma behind it.
-/

namespace Gherkin

/-- The lines of a value in a listing. -/
abbrev Listing :=
  List String

namespace Listing

/-- A value with a comma behind its last line. -/
def withComma : Listing → Listing
  | [] => []
  | [line] => [line ++ ","]
  | line :: lines => line :: withComma lines

/-- A value with a label in front of its first line. -/
def labelled (label : String) : Listing → Listing
  | [] => []
  | line :: lines => (label ++ line) :: lines

/-- Values between an opening and a closing bracket, on the same line when there are none. -/
def bracketed (opening closing : String) (items : List Listing) : Listing :=
  if items.isEmpty then [opening ++ closing]
  else
    opening :: (items.flatMap fun item => (withComma item).map ("    " ++ ·)) ++ [closing]

/-- A value with named fields. -/
def record (name : String) (fields : List (String × Listing)) : Listing :=
  bracketed (name ++ " \x7b") "\x7d" <|
    fields.map fun (field, value) => labelled (field ++ ": ") value

/-- A value inside a named wrapper. -/
def wrapped (name : String) (value : Listing) : Listing :=
  bracketed (name ++ "(") ")" [value]

/-- Values in square brackets. -/
def list (f : α → Listing) (items : List α) : Listing :=
  bracketed "[" "]" (items.map f)

/-- A value that may be missing. -/
def optional (f : α → Listing) : Option α → Listing
  | none => ["None"]
  | some value => wrapped "Some" (f value)

/-- A text in double quotes. -/
def quoted (s : String) : Listing :=
  [Text.quote s]

/-- A number in decimal digits. -/
def number (n : Nat) : Listing :=
  [Nat.repr n]

end Listing

open Listing

/-- The listing of a location. -/
def Location.listing (l : Location) : Listing :=
  record "Location" [("line", number l.line), ("column", number l.column)]

/-- The listing of a comment. -/
def Comment.listing (c : Comment) : Listing :=
  record "Comment" [("location", c.location.listing), ("text", quoted c.text)]

/-- The listing of a tag. -/
def Tag.listing (t : Tag) : Listing :=
  record "Tag" [("location", t.location.listing), ("name", quoted t.name)]

/-- The listing of a cell. -/
def TableCell.listing (c : TableCell) : Listing :=
  record "TableCell" [("location", c.location.listing), ("value", quoted c.value)]

/-- The listing of a table row. -/
def TableRow.listing (r : TableRow) : Listing :=
  record "TableRow"
    [("location", r.location.listing), ("cells", list TableCell.listing r.cells)]

/-- The listing of a data table. -/
def DataTable.listing (t : DataTable) : Listing :=
  record "DataTable" [("location", t.location.listing), ("rows", list TableRow.listing t.rows)]

/-- The listing of a doc string. -/
def DocString.listing (d : DocString) : Listing :=
  record "DocString"
    [("location", d.location.listing), ("content_type", optional quoted d.contentType),
     ("content", quoted d.content)]

/-- What stands below a step is listed inside the name of its kind. -/
def StepArgument.listing : StepArgument → Listing
  | dataTable t => wrapped "DataTable" t.listing
  | docString d => wrapped "DocString" d.listing

/-- The listing of a step. -/
def Step.listing (s : Step) : Listing :=
  record "Step"
    [("location", s.location.listing), ("comments", list Comment.listing s.comments),
     ("keyword", quoted s.keyword), ("text", quoted s.text),
     ("argument", optional StepArgument.listing s.argument)]

/-- The fields that come from a title line; a background lists no tags. -/
def Title.fields (t : Title) (tags : Option (List Tag)) : List (String × Listing) :=
  [("location", t.location.listing), ("comments", list Comment.listing t.comments)] ++
    (tags.toList.map fun tags => ("tags", list Tag.listing tags)) ++
    [("keyword", quoted t.keyword), ("name", quoted t.name),
     ("description", optional quoted t.description)]

/-- The listing of examples. -/
def Examples.listing (e : Examples) : Listing :=
  record "Examples" <|
    e.toTitle.fields e.tags ++
      [("header", optional TableRow.listing e.header), ("body", list TableRow.listing e.body)]

/-- A definition is listed inside the name of its kind. -/
def Definition.listing : Definition → Listing
  | background b =>
    wrapped "Background" <|
      record "Background" (b.toTitle.fields none ++ [("steps", list Step.listing b.steps)])
  | scenario s =>
    wrapped "Scenario" <|
      record "Scenario" (s.toTitle.fields s.tags ++ [("steps", list Step.listing s.steps)])
  | outline o =>
    wrapped "ScenarioOutline" <|
      record "ScenarioOutline" <|
        o.toTitle.fields o.tags ++
          [("steps", list Step.listing o.steps), ("examples", list Examples.listing o.examples)]

/-- The listing of a feature. -/
def Feature.listing (f : Feature) : Listing :=
  record "Feature" <|
    f.toTitle.fields f.tags ++
      [("children", list Definition.listing f.definitions), ("language", quoted f.language)]

/-- The listing of a document. -/
def Document.listing (d : Document) : Listing :=
  record "GherkinDocument" [("feature", optional Feature.listing d.feature)]

end Gherkin
