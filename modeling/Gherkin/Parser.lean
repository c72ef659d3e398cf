import Gherkin.Dialect.Builtin
import Gherkin.Run

/-!
# Parsing

A parser reads documents in the dialects that its resolver knows.  What the resolver keeps passes
from one document to the next, and nothing else does.
-/

namespace Gherkin

/-- The number of errors after which parsing gives up on the next one. -/
def maxErrors : Nat :=
  10

/-- The resolver for the built-in languages. -/
def Resolver.builtin : Resolver :=
  .ofSource Builtin.keywords

/-- Reads documents with the dialects of a resolver. -/
structure Parser where
  resolver : Resolver := .builtin
  limit : Option Nat := some maxErrors

/-- What parsing a document gives. -/
structure Report where
  outcome : Except Failure Document
  resolver : Resolver
  log : List Event

namespace Parser

/-- Parses a document. -/
def report (p : Parser) (source : Source) : Report :=
  let events := p.resolver.events p.resolver.defaultLanguage
  match Matcher.start p.resolver with
  | .error e => ⟨.error (.dialect e), p.resolver, events⟩
  | .ok matcher =>
    match Run.start p.limit matcher {} source with
    | .error e => ⟨.error (.dialect e), matcher.resolver, events⟩
    | .ok run =>
      let completed := run.complete
      ⟨completed.outcome, completed.matcher.resolver, events ++ completed.log.toList⟩

/-- The parser for the document after one that has been parsed. -/
def next (p : Parser) (report : Report) : Parser :=
  { p with resolver := report.resolver }

/-- Parses documents one after the other. -/
def reports (p : Parser) : List Source → List Report
  | [] => []
  | source :: sources =>
    let report := p.report source
    report :: (p.next report).reports sources

/-- The document that a source holds, or why it has not been read. -/
def parse (p : Parser) (source : Source) : Except Failure Document :=
  (p.report source).outcome

/-- The document that a text holds. -/
def parseText (p : Parser) (text : String) : Except Failure Document :=
  p.parse (.ofText text)

/-- The document that bytes hold. -/
def parseBytes (p : Parser) (bytes : List UInt8) : Except Failure Document :=
  p.parse (.ofBytes bytes)

/-- The document that bytes in pieces hold. -/
def parsePieces (p : Parser) (pieces : List Piece) : Except Failure Document :=
  p.parse (.ofPieces pieces)

end Parser

/-- The document that a text in one of the built-in languages holds. -/
def parse (text : String) : Except Failure Document :=
  Parser.parseText {} text

end Gherkin
