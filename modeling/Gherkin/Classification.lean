import Gherkin.Matcher
import Gherkin.Scanner

/-!
# Reading without a grammar

Every line of a source is read as the first kind of tokens that it is of, up to and including the
end of the source.
-/

namespace Gherkin

/-- What reading lines without a grammar gives. -/
structure Classification where
  /-- The tokens that have been read before any failure. -/
  tokens : List Token
  matcher : Matcher
  failure : Option Failure
  events : List Event

namespace Classification

/-- Reading that stops before the next token. -/
def failed (m : Matcher) (failure : Failure) (events : List Event) : Classification :=
  ⟨[], m, some failure, events⟩

/-- The classification with a token and its events in front. -/
def cons (t : Token) (events : List Event) (c : Classification) : Classification :=
  { c with tokens := t :: c.tokens, events := events ++ c.events }

end Classification

namespace Matcher

/-- Reads the lines of a scanner that has read `line` lines, and the end of the source. -/
def classifyAll (m : Matcher) (line : Nat) : Source → Classification
  | [] =>
    let t := Scanner.atEnd ⟨[], line⟩
    match m.classify t with
    | .error e => .failed m (.dialect e) (m.classifyEvents t)
    | .ok (_, next, read) => ⟨[read], next, none, m.classifyEvents t⟩
  | read :: source =>
    match Scanner.read ⟨read :: source, line⟩ with
    | (.error e, _) => .failed m (.scan e) []
    | (.ok t, scanner) =>
      match m.classify t with
      | .error e => .failed m (.dialect e) (m.classifyEvents t)
      | .ok (_, next, read) =>
        (next.classifyAll scanner.line source).cons read (m.classifyEvents t)

end Matcher
end Gherkin
