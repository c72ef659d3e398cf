/-!
# Grammar rules

The productions of the grammar.  Each part of a document is read while its rule is open.
-/

namespace Gherkin

/-- A production of the grammar; `root` stands for what surrounds the document. -/
inductive Rule where
  | root
  | document
  | feature
  | featureHeader
  | background
  | scenarioDefinition
  | scenario
  | scenarioOutline
  | examplesDefinition
  | examples
  | examplesTable
  | step
  | dataTable
  | docString
  | tags
  | description
deriving DecidableEq, Inhabited

namespace Rule

/-- The name of a rule in log records. -/
def label : Rule → String
  | root => "None"
  | document => "GherkinDocument"
  | feature => "Feature"
  | featureHeader => "FeatureHeader"
  | background => "Background"
  | scenarioDefinition => "ScenarioDefinition"
  | scenario => "Scenario"
  | scenarioOutline => "ScenarioOutline"
  | examplesDefinition => "ExamplesDefinition"
  | examples => "Examples"
  | examplesTable => "ExamplesTable"
  | step => "Step"
  | dataTable => "DataTable"
  | docString => "DocString"
  | tags => "Tags"
  | description => "Description"

/-- All rules. -/
def all : List Rule :=
  [root, document, feature, featureHeader, background, scenarioDefinition, scenario,
   scenarioOutline, examplesDefinition, examples, examplesTable, step, dataTable, docString, tags,
   description]

end Rule
end Gherkin
