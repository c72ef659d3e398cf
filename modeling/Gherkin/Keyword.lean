/-!
# Keywords

The kinds of keywords that a language has, and tables that list the keywords of each kind.  The
kind `step` is composite: its keywords are those of the five kinds of steps.
-/

namespace Gherkin

/-- What a keyword introduces. -/
inductive KeywordKind where
  | feature
  | background
  | scenario
  | scenarioOutline
  | examples
  | givenStep
  | whenStep
  | thenStep
  | andStep
  | butStep
  | step
deriving DecidableEq, Inhabited

namespace KeywordKind

/-- All kinds of keywords, in the order in which they are listed. -/
def all : List KeywordKind :=
  [feature, background, scenario, scenarioOutline, examples, givenStep, whenStep, thenStep,
   andStep, butStep, step]

/-- The name of a kind in keyword tables and in messages to the user. -/
def key : KeywordKind → String
  | feature => "feature"
  | background => "background"
  | scenario => "scenario"
  | scenarioOutline => "scenarioOutline"
  | examples => "examples"
  | givenStep => "given"
  | whenStep => "when"
  | thenStep => "then"
  | andStep => "and"
  | butStep => "but"
  | step => "step"

/-- The name of a kind in log records. -/
def label : KeywordKind → String
  | feature => "Feature"
  | background => "Background"
  | scenario => "Scenario"
  | scenarioOutline => "ScenarioOutline"
  | examples => "Examples"
  | givenStep => "Given"
  | whenStep => "When"
  | thenStep => "Then"
  | andStep => "And"
  | butStep => "But"
  | step => "Step"

/-- The kinds that a kind is composed of, in the order in which their keywords are tried. -/
def components : KeywordKind → List KeywordKind
  | step => [givenStep, whenStep, thenStep, andStep, butStep]
  | kind => [kind]

/-- The list of all kinds leaves none out. -/
theorem mem_all (kind : KeywordKind) : kind ∈ all := by
  cases kind <;> decide

end KeywordKind

/-- The keywords that a table lists for each kind. -/
structure KeywordMap where
  keywords : KeywordKind → List String

namespace KeywordMap

/-- The table that lists no keywords. -/
def empty : KeywordMap :=
  ⟨fun _ => []⟩

/-- The table with the keywords of one kind replaced. -/
def set (map : KeywordMap) (kind : KeywordKind) (keywords : List String) : KeywordMap :=
  ⟨fun k => if k = kind then keywords else map.keywords k⟩

/-- The table that lists the given keywords; of two entries for a kind the later one counts. -/
def ofEntries (entries : List (KeywordKind × List String)) : KeywordMap :=
  entries.foldl (fun map (kind, keywords) => map.set kind keywords) empty

/-- Replacing the keywords of one kind leaves those of the others alone. -/
theorem keywords_set (map : KeywordMap) (kind k : KeywordKind) (keywords : List String) :
    (map.set kind keywords).keywords k = if k = kind then keywords else map.keywords k :=
  rfl

end KeywordMap

/-- A source of keyword tables: the table for a language tag, if there is one. -/
abbrev KeywordSource :=
  String → Option KeywordMap

namespace KeywordSource

/-- The first table that one of the sources has for a language. -/
def firstOf (sources : List KeywordSource) : KeywordSource :=
  fun language => sources.findSome? fun source => source language

/-- The number of sources that `firstOf` consults: up to the first one that has a table. -/
def consulted (sources : List KeywordSource) (language : String) : Nat :=
  match sources.findIdx? fun source => (source language).isSome with
  | some i => i + 1
  | none => sources.length

end KeywordSource
end Gherkin
