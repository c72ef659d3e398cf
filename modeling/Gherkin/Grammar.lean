import Gherkin.Rule
import Gherkin.Token

/-!
# The grammar

A state says which part of a document comes next, and with that which rules are open.  Its
transitions, tried in order, say which kinds of tokens it accepts, how many of the open rules each
of them closes, and which rules it opens.

A document is a sentence of this grammar, where blank and comment lines may stand wherever free
text may.

```text
Document        := Feature?
Feature         := FeatureHeader Background? ScenarioDefinition*
FeatureHeader   := #Language? Tags? #FeatureLine Description?
Background      := #BackgroundLine Description? Step*
ScenarioDefinition := Tags? (Scenario | ScenarioOutline)
Scenario        := #ScenarioLine Description? Step*
ScenarioOutline := #ScenarioOutlineLine Description? Step* ExamplesDefinition*
ExamplesDefinition := Tags? Examples
Examples        := #ExamplesLine Description? ExamplesTable?
ExamplesTable   := #TableRow+
Step            := #StepLine (DataTable | DocString)?
DataTable       := #TableRow+
DocString       := #DocStringSeparator #Other* #DocStringSeparator
Tags            := #TagLine+
Description     := #Other+
```
-/

namespace Gherkin

/-- The blocks that have a title line. -/
inductive Block where
  | feature
  | background
  | scenario
  | outline
  | examples
deriving DecidableEq

/-- The blocks that have steps. -/
inductive StepBlock where
  | background
  | scenario
  | outline
deriving DecidableEq

/-- A place between the title line of a block and what the block holds. -/
inductive HeaderPlace where
  /-- Behind the title line and any blank lines. -/
  | title
  /-- Behind a line of the description. -/
  | description
  /-- Behind comments, where no description may start. -/
  | comments
deriving DecidableEq

/-- A place at a step of a block. -/
inductive StepPlace where
  /-- Behind the step line. -/
  | step
  /-- Behind a row of its data table. -/
  | dataTable
  /-- Inside its doc string. -/
  | docString
  /-- Behind the line that closes its doc string. -/
  | afterDocString
deriving DecidableEq

/-- The part of a document that has been read last. -/
inductive State where
  | start
  | language
  | featureTags
  | header (block : Block) (place : HeaderPlace)
  | steps (block : StepBlock) (place : StepPlace)
  | definitionTags
  | examplesTags
  | examplesTable
  | finished
deriving DecidableEq

/-- A kind of tokens that a state accepts, and what becomes of the open rules. -/
structure Transition where
  kind : TokenKind
  /-- The transition applies only to tags that belong to examples. -/
  lookahead : Bool
  closes : Nat
  opens : List Rule
  next : State
deriving DecidableEq

/-- A block that has steps, as a block. -/
def StepBlock.block : StepBlock → Block
  | background => .background
  | scenario => .scenario
  | outline => .outline

namespace Block

/-- The rules inside the document that are open while a block is read, outermost first. -/
def rules : Block → List Rule
  | feature => [.feature, .featureHeader]
  | background => [.feature, .background]
  | scenario => [.feature, .scenarioDefinition, .scenario]
  | outline => [.feature, .scenarioDefinition, .scenarioOutline]
  | examples => [.feature, .scenarioDefinition, .scenarioOutline, .examplesDefinition, .examples]

/-- An outline is open while the block is read, so that examples may follow. -/
def inOutline : Block → Bool
  | outline | examples => true
  | feature | background | scenario => false

end Block

namespace State

/-- The rules inside the document that are open in a state, outermost first. -/
def rules : State → List Rule
  | start => []
  | language => [.feature, .featureHeader]
  | featureTags => [.feature, .featureHeader, .tags]
  | header block .title => block.rules
  | header block .description => block.rules ++ [.description]
  | header block .comments => block.rules
  | steps block .step => block.block.rules ++ [.step]
  | steps block .dataTable => block.block.rules ++ [.step, .dataTable]
  | steps block .docString => block.block.rules ++ [.step, .docString]
  | steps block .afterDocString => block.block.rules ++ [.step, .docString]
  | definitionTags => [.feature, .scenarioDefinition, .tags]
  | examplesTags => Block.outline.rules ++ [.examplesDefinition, .tags]
  | examplesTable => Block.examples.rules ++ [.examplesTable]
  | finished => []

/-- The transition that closes all but the outermost `kept` rules and opens others. -/
def move (s : State) (kind : TokenKind) (kept : Nat) (opens : List Rule) (next : State) :
    Transition :=
  ⟨kind, false, s.rules.length - kept, opens, next⟩

/-- The transition that leaves all rules open. -/
def go (s : State) (kind : TokenKind) (next : State) : Transition :=
  s.move kind s.rules.length [] next

/-- The transition that leaves everything as it is. -/
def stay (s : State) (kind : TokenKind) : Transition :=
  s.go kind s

/-- The end of the source closes all rules. -/
def finish (s : State) : Transition :=
  s.move .eof 0 [] finished

/-- Blank lines and comments between the other lines. -/
def gaps (s : State) : List Transition :=
  [s.stay .comment, s.stay .empty]

/-- The title lines of scenarios and outlines, which close all but the feature. -/
def scenarioTitles (s : State) : List Transition :=
  [s.move .scenarioLine 1 [.scenarioDefinition, .scenario] (header .scenario .title),
   s.move .scenarioOutlineLine 1 [.scenarioDefinition, .scenarioOutline] (header .outline .title)]

/-- The tags of another scenario or outline, which close all but the feature. -/
def tagsOfScenario (s : State) : Transition :=
  s.move .tagLine 1 [.scenarioDefinition, .tags] definitionTags

/-- The tags of examples, which close all but the outline. -/
def tagsOfExamples (s : State) : Transition :=
  { s.move .tagLine 3 [.examplesDefinition, .tags] examplesTags with lookahead := true }

/-- The title line of examples, which closes all but the outline. -/
def examplesTitle (s : State) : Transition :=
  s.move .examplesLine 3 [.examplesDefinition, .examples] (header .examples .title)

/-- The lines that may follow a block: another scenario or outline, and examples in an outline. -/
def following (s : State) (block : Block) : List Transition :=
  if block.inOutline then
    [s.tagsOfExamples, s.tagsOfScenario, s.examplesTitle] ++ s.scenarioTitles
  else s.tagsOfScenario :: s.scenarioTitles

/-- The next step of a block closes the one before. -/
def nextStep (s : State) (block : StepBlock) : Transition :=
  s.move .stepLine block.block.rules.length [.step] (steps block .step)

/-- The line that starts what a block holds, which closes its description. -/
def contents (s : State) : Block → Transition
  | .feature => s.move .backgroundLine 1 [.background] (header .background .title)
  | .background => s.nextStep .background
  | .scenario => s.nextStep .scenario
  | .outline => s.nextStep .outline
  | .examples => s.move .tableRow Block.examples.rules.length [.examplesTable] examplesTable

/-- The transitions of a state, in the order in which they are tried. -/
def transitions (s : State) : List Transition :=
  match s with
  | start =>
    [s.finish,
     s.move .language 0 [.feature, .featureHeader] language,
     s.move .tagLine 0 [.feature, .featureHeader, .tags] featureTags,
     s.move .featureLine 0 [.feature, .featureHeader] (header .feature .title)] ++ s.gaps
  | language =>
    [s.move .tagLine 2 [.tags] featureTags, s.go .featureLine (header .feature .title)] ++ s.gaps
  | featureTags =>
    [s.stay .tagLine, s.move .featureLine 2 [] (header .feature .title)] ++ s.gaps
  | header block .title =>
    [s.finish, s.stay .empty, s.go .comment (header block .comments), s.contents block] ++
      s.following block ++
      [s.move .other block.rules.length [.description] (header block .description)]
  | header block .description =>
    [s.finish, s.move .comment block.rules.length [] (header block .comments), s.contents block] ++
      s.following block ++ [s.stay .other]
  | header block .comments =>
    [s.finish, s.stay .comment, s.contents block] ++ s.following block ++ [s.stay .empty]
  | steps block .step =>
    [s.finish,
     s.move .tableRow s.rules.length [.dataTable] (steps block .dataTable),
     s.move .docStringSeparator s.rules.length [.docString] (steps block .docString),
     s.nextStep block] ++ s.following block.block ++ s.gaps
  | steps block .dataTable =>
    [s.finish, s.stay .tableRow, s.nextStep block] ++ s.following block.block ++ s.gaps
  | steps block .docString =>
    [s.go .docStringSeparator (steps block .afterDocString), s.stay .other]
  | steps block .afterDocString =>
    [s.finish, s.nextStep block] ++ s.following block.block ++ s.gaps
  | definitionTags =>
    [s.stay .tagLine,
     s.move .scenarioLine 2 [.scenario] (header .scenario .title),
     s.move .scenarioOutlineLine 2 [.scenarioOutline] (header .outline .title)] ++ s.gaps
  | examplesTags =>
    [s.stay .tagLine, s.move .examplesLine 4 [.examples] (header .examples .title)] ++ s.gaps
  | examplesTable => [s.finish, s.stay .tableRow] ++ s.following .examples ++ s.gaps
  | finished => []

/-- The kinds of tokens that a state accepts, in order and without repetition. -/
def expected (s : State) : List TokenKind :=
  (s.transitions.map Transition.kind).eraseDups

/-- All states, in the order of their numbers. -/
def all : List State :=
  [start, language, featureTags,
   header .feature .title, header .feature .description, header .feature .comments,
   header .background .title, header .background .description, header .background .comments,
   steps .background .step, steps .background .dataTable,
   definitionTags,
   header .scenario .title, header .scenario .description, header .scenario .comments,
   steps .scenario .step, steps .scenario .dataTable,
   header .outline .title, header .outline .description, header .outline .comments,
   steps .outline .step, steps .outline .dataTable,
   examplesTags,
   header .examples .title, header .examples .description, header .examples .comments,
   examplesTable,
   finished,
   steps .outline .docString, steps .outline .afterDocString,
   steps .scenario .docString, steps .scenario .afterDocString,
   steps .background .docString, steps .background .afterDocString]

/-- The state with a number. -/
def ofNumber? (n : Nat) : Option State :=
  all[n]?

/-- The number of a state. -/
def number (s : State) : Nat :=
  all.idxOf s

/-! Two pairs of states that differ by little, as they stand in a table by number: the title line
and the description of a feature, and the same of examples. -/

example :
    [3, 4, 23, 24].map (fun n => (ofNumber? n).map fun s =>
      s.transitions.map fun t => (t.kind, t.lookahead, t.closes, t.opens, t.next.number)) =
    [some
      [(.eof, false, 2, [], 27),
       (.empty, false, 0, [], 3),
       (.comment, false, 0, [], 5),
       (.backgroundLine, false, 1, [.background], 6),
       (.tagLine, false, 1, [.scenarioDefinition, .tags], 11),
       (.scenarioLine, false, 1, [.scenarioDefinition, .scenario], 12),
       (.scenarioOutlineLine, false, 1, [.scenarioDefinition, .scenarioOutline], 17),
       (.other, false, 0, [.description], 4)],
     some
      [(.eof, false, 3, [], 27),
       (.comment, false, 1, [], 5),
       (.backgroundLine, false, 2, [.background], 6),
       (.tagLine, false, 2, [.scenarioDefinition, .tags], 11),
       (.scenarioLine, false, 2, [.scenarioDefinition, .scenario], 12),
       (.scenarioOutlineLine, false, 2, [.scenarioDefinition, .scenarioOutline], 17),
       (.other, false, 0, [], 4)],
     some
      [(.eof, false, 5, [], 27),
       (.empty, false, 0, [], 23),
       (.comment, false, 0, [], 25),
       (.tableRow, false, 0, [.examplesTable], 26),
       (.tagLine, true, 2, [.examplesDefinition, .tags], 22),
       (.tagLine, false, 4, [.scenarioDefinition, .tags], 11),
       (.examplesLine, false, 2, [.examplesDefinition, .examples], 23),
       (.scenarioLine, false, 4, [.scenarioDefinition, .scenario], 12),
       (.scenarioOutlineLine, false, 4, [.scenarioDefinition, .scenarioOutline], 17),
       (.other, false, 0, [.description], 24)],
     some
      [(.eof, false, 6, [], 27),
       (.comment, false, 1, [], 25),
       (.tableRow, false, 1, [.examplesTable], 26),
       (.tagLine, true, 3, [.examplesDefinition, .tags], 22),
       (.tagLine, false, 5, [.scenarioDefinition, .tags], 11),
       (.examplesLine, false, 3, [.examplesDefinition, .examples], 23),
       (.scenarioLine, false, 5, [.scenarioDefinition, .scenario], 12),
       (.scenarioOutlineLine, false, 5, [.scenarioDefinition, .scenarioOutline], 17),
       (.other, false, 0, [], 24)]] :=
  rfl

/-- Every state has a number. -/
theorem mem_all : ∀ s : State, s ∈ all
  | header block place => by cases block <;> cases place <;> decide
  | steps block place => by cases block <;> cases place <;> decide
  | start | language | featureTags | definitionTags | examplesTags | examplesTable | finished => by
    decide

/-- What can be decided of every state can be decided of all of them. -/
instance {P : State → Prop} [DecidablePred P] : Decidable (∀ s, P s) :=
  decidable_of_iff (∀ s ∈ all, P s) ⟨fun h s => h s (mem_all s), fun h s _ => h s⟩

end State
end Gherkin
