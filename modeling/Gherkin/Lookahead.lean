import Gherkin.Matcher
import Gherkin.Scanner

/-!
# Looking ahead over tags

Tags in an outline belong to examples when the first line behind them that is not blank, a comment
or a tag line is the title line of examples.  Looking for that line reads it from the scanner; the
lines that have been seen wait in a queue.
-/

namespace Gherkin

/-- A look at one token. -/
structure Glance where
  /-- The token with the reading that the look has given it. -/
  token : Token
  /-- Whether the tags in front of the token belong to examples, if the token decides that. -/
  verdict : Option Bool
  events : List Event

/-- A look at several tokens, up to the one that decides. -/
structure Lookahead where
  /-- The tokens that have been looked at, and those behind them. -/
  tokens : List Token
  verdict : Option Bool
  events : List Event

/-- A look at lines that have been read for it. -/
structure FarLookahead extends Lookahead where
  /-- The scanner behind the lines that have been read. -/
  scanner : Scanner
  /-- The line that could not be read. -/
  error? : Option ScanError

/-- A look that goes on behind a token that does not decide. -/
def Lookahead.cons (g : Glance) (l : Lookahead) : Lookahead :=
  ⟨g.token :: l.tokens, l.verdict, g.events ++ l.events⟩

@[inherit_doc Lookahead.cons]
def FarLookahead.cons (g : Glance) (l : FarLookahead) : FarLookahead :=
  { l with toLookahead := l.toLookahead.cons g }

namespace Matcher

/-- Reads a token as a kind that changes neither the dialect nor an open doc string. -/
def readAs? (m : Matcher) (kind : TokenKind) (t : Token) : Option Token :=
  (m.content? kind t.line).map fun content =>
    t.readAs { content with kind := kind, dialect := m.dialect }

/-- The lines that may stand between tags and the title line of examples. -/
def betweenTags : List TokenKind :=
  [.empty, .comment, .tagLine]

/-- Looks at one token behind tags. -/
def glance (m : Matcher) (t : Token) : Glance :=
  match m.readAs? .examplesLine t with
  | some read => ⟨read, some true, [.matched read, .tagsOfExamples t.number]⟩
  | none =>
    match betweenTags.findSome? fun kind => m.readAs? kind t with
    | some read => ⟨read, none, [.matched read]⟩
    | none => ⟨t, some false, [.tagsOfScenario t.number]⟩

/-- Looks at tokens that wait already. -/
def lookThrough (m : Matcher) : List Token → Lookahead
  | [] => ⟨[], none, []⟩
  | t :: ts =>
    let g := m.glance t
    match g.verdict with
    | some verdict => ⟨g.token :: ts, some verdict, g.events⟩
    | none => (m.lookThrough ts).cons g

/--
Looks at lines of a scanner that has read `line` lines, and at the end of the source, which decides
against examples.
-/
def lookOn (m : Matcher) (line : Nat) : Source → FarLookahead
  | [] =>
    let scanner : Scanner := ⟨[], line⟩
    let g := m.glance scanner.atEnd
    ⟨⟨[g.token], g.verdict, g.events⟩, scanner, none⟩
  | read :: source =>
    match Scanner.read ⟨read :: source, line⟩ with
    | (.error e, scanner) => ⟨⟨[], none, []⟩, scanner, some e⟩
    | (.ok t, scanner) =>
      let g := m.glance t
      match g.verdict with
      | some verdict => ⟨⟨[g.token], some verdict, g.events⟩, scanner, none⟩
      | none => (m.lookOn scanner.line source).cons g

end Matcher
end Gherkin
