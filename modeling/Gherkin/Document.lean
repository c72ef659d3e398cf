import Gherkin.Location

/-!
# Documents

The tree that a document is read into.  Every block with a title line has a location, comments, a
keyword, a name and a description; the blocks differ in what else they hold.
-/

namespace Gherkin

/-- A comment line, as it is written. -/
structure Comment where
  location : Location
  text : String
deriving DecidableEq

/-- A tag, with its sign. -/
structure Tag where
  location : Location
  name : String
deriving DecidableEq

/-- A cell, with its escapes resolved. -/
structure TableCell where
  location : Location
  value : String
deriving DecidableEq

/-- A row of a table, placed where its first bar stands. -/
structure TableRow where
  location : Location
  cells : List TableCell
deriving DecidableEq

/-- A table below a step. -/
structure DataTable where
  location : Location
  rows : List TableRow
deriving DecidableEq

/-- Free text below a step. -/
structure DocString where
  location : Location
  contentType : Option String
  content : String
deriving DecidableEq

/-- What may stand below a step. -/
inductive StepArgument where
  | dataTable (table : DataTable)
  | docString (docString : DocString)
deriving DecidableEq

/-- A step of a scenario, an outline or a background. -/
structure Step where
  location : Location
  comments : List Comment
  keyword : String
  text : String
  argument : Option StepArgument
deriving DecidableEq

/-- What every block with a title line starts with. -/
structure Title where
  location : Location
  /-- The comments in front of the title line. -/
  comments : List Comment
  keyword : String
  name : String
  description : Option String
deriving DecidableEq

/-- The steps that come before those of each scenario. -/
structure Background extends Title where
  steps : List Step
deriving DecidableEq

/-- A list of steps that is carried out once. -/
structure Scenario extends Title where
  tags : List Tag
  steps : List Step
deriving DecidableEq

/-- The values for the placeholders of an outline. -/
structure Examples extends Title where
  tags : List Tag
  header : Option TableRow
  body : List TableRow
deriving DecidableEq

/-- A list of steps that is carried out once for each row of its examples. -/
structure ScenarioOutline extends Title where
  tags : List Tag
  steps : List Step
  examples : List Examples
deriving DecidableEq

/-- A block of a feature. -/
inductive Definition where
  | background (background : Background)
  | scenario (scenario : Scenario)
  | outline (outline : ScenarioOutline)
deriving DecidableEq

namespace Definition

/-- Every definition has a title line. -/
def title : Definition → Title
  | background b => b.toTitle
  | scenario s => s.toTitle
  | outline o => o.toTitle

/-- The steps of a definition, in the order of their lines. -/
def steps : Definition → List Step
  | background b => b.steps
  | scenario s => s.steps
  | outline o => o.steps

/-- The tags of a definition; a background has none. -/
def tags : Definition → List Tag
  | background _ => []
  | scenario s => s.tags
  | outline o => o.tags

/-- The background that a definition is, if it is one. -/
def background? : Definition → Option Background
  | background b => some b
  | _ => none

end Definition

/-- A feature lists its definitions in the order of their lines. -/
structure Feature extends Title where
  tags : List Tag
  definitions : List Definition
  language : String
deriving DecidableEq

namespace Feature

/-- The first background of the feature. -/
def background? (f : Feature) : Option Background :=
  f.definitions.findSome? Definition.background?

/-- The definitions other than backgrounds. -/
def scenarios (f : Feature) : List Definition :=
  f.definitions.filter fun d => d.background?.isNone

/-- The number of steps in all definitions of the feature. -/
def stepCount (f : Feature) : Nat :=
  f.definitions.foldr (fun d n => d.steps.length + n) 0

end Feature

/-- A document holds at most one feature. -/
structure Document where
  feature : Option Feature := none
deriving DecidableEq, Inhabited

end Gherkin
