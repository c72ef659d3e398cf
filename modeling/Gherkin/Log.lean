import Gherkin.Dialect.Resolver
import Gherkin.Error
import Gherkin.Rule

/-!
# Log records

What is recorded while a document is read, with its severity and its wording.
-/

namespace Gherkin

/-- How severe a record is. -/
inductive Severity where
  | warn
  | info
  | debug
  | trace
deriving DecidableEq

namespace Severity

/-- The most severe records have the lowest rank. -/
def rank : Severity → Nat
  | warn => 0
  | info => 1
  | debug => 2
  | trace => 3

/-- The name of a severity in front of its records. -/
def name : Severity → String
  | warn => "WARN"
  | info => "INFO"
  | debug => "DEBUG"
  | trace => "TRACE"

/-- A log of severity `s` shows the records that are at least as severe. -/
def shows (s recorded : Severity) : Bool :=
  recorded.rank ≤ s.rank

end Severity

/-- Something worth recording. -/
inductive Event where
  | dialectKnown (language : String)
  | dialectIncomplete (language : String) (missing : List KeywordKind)
  | dialectResolved (language : String)
  | dialectSwitched (line : Nat) (language : String)
  | matched (token : Token)
  | ruleStarted (rule : Rule)
  | ruleEnded (rule : Rule)
  | tagsOfExamples (line : Nat)
  | tagsOfScenario (line : Nat)
  | error (error : SyntaxError)
  | givenUp (errors : Nat)

namespace Event

/-- How severe an event is. -/
def severity : Event → Severity
  | dialectKnown _ => .trace
  | dialectIncomplete .. => .warn
  | dialectResolved _ => .debug
  | dialectSwitched .. => .debug
  | matched _ => .trace
  | ruleStarted _ => .trace
  | ruleEnded _ => .trace
  | tagsOfExamples _ => .trace
  | tagsOfScenario _ => .trace
  | error _ => .debug
  | givenUp _ => .warn

/-- The words in which an event is recorded. -/
def message : Event → String
  | dialectKnown language => s!"dialect cache hit for {language}"
  | dialectIncomplete language missing =>
    let labels := ", ".intercalate (missing.map KeywordKind.label)
    s!"dialect {language} has no keywords for [{labels}]"
  | dialectResolved language => s!"resolved dialect {language}"
  | dialectSwitched line language => s!"line {line}: switched dialect to {language}"
  | matched token => s!"line {token.number}: {token.display}"
  | ruleStarted rule => s!"start rule {rule.label}"
  | ruleEnded rule => s!"end rule {rule.label}"
  | tagsOfExamples line => s!"tags at line {line} belong to examples"
  | tagsOfScenario line => s!"tags before line {line} belong to a scenario"
  | error e => e.message
  | givenUp errors => s!"giving up after {errors} errors"

end Event

/-- What is recorded when a language tag is resolved. -/
def Resolver.events (r : Resolver) (language : String) : List Event :=
  let tag := LanguageTag.normalize language
  match r.resolution tag with
  | .known _ => [.dialectKnown tag]
  | .resolved _ => [.dialectResolved tag]
  | .incomplete missing => [.dialectIncomplete tag missing]
  | .unsupported => []

end Gherkin
