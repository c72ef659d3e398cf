import Gherkin.Line.Cells
import Gherkin.Line.Pragma
import Gherkin.Log
import Gherkin.Separator

/-!
# Matching tokens

A matcher reads tokens as kinds of tokens.  What it reads depends on the active dialect and on
whether a doc string is open; a language pragma changes the one, a separator line the other.  A
token that is not of the kind asked for changes nothing.
-/

namespace Gherkin

/-- A doc string that has been opened and not yet closed. -/
structure OpenDocString where
  separator : Separator
  /-- The indentation of the opening line, which lines inside the doc string lose. -/
  indent : Nat
deriving DecidableEq

/-- What the reading of the next token depends on. -/
structure Matcher where
  resolver : Resolver
  dialect : Dialect
  docString : Option OpenDocString

namespace Matcher

/-- A matcher for the start of a document in the default language. -/
def start (resolver : Resolver) : Except DialectError Matcher :=
  match resolver.resolveDefault with
  | .ok (dialect, resolver) => .ok ⟨resolver, dialect, none⟩
  | .error e => .error e

/-- The matcher at the start of another document. -/
def reset (m : Matcher) : Except DialectError Matcher :=
  start m.resolver

/-- Reads a line that starts with a keyword of the given kind and a colon. -/
def title? (m : Matcher) (kind : KeywordKind) (l : Line) : Option Content :=
  (m.dialect.keywords kind).findSome? fun keyword =>
    (l.title? keyword).map fun title =>
      { keyword := some keyword, text := some title, indent := l.indent }

/-- Reads a line that starts with a step keyword. -/
def step? (m : Matcher) (l : Line) : Option Content :=
  (m.dialect.keywords .step).findSome? fun keyword =>
    (l.rest? keyword).map fun text =>
      { keyword := some keyword, text := some text, indent := l.indent }

/--
Reads a line that opens a doc string, whose text is then the type of the content, or one that
closes the open doc string.
-/
def separator? (m : Matcher) (l : Line) : Option Content :=
  match m.docString with
  | some opened =>
    if l.startsWith opened.separator.text then
      some { keyword := some opened.separator.text, text := some "", indent := l.indent }
    else none
  | none =>
    (Separator.ofLine? l).bind fun separator =>
      (l.rest? separator.text).map fun contentType =>
        { keyword := some separator.text, text := some contentType, indent := l.indent }

/-- The line as free text, which inside a doc string loses its indentation and its escapes. -/
def freeText (m : Matcher) (l : Line) : String :=
  match m.docString with
  | some opened => String.ofList (opened.separator.unescape (l.dropIndent opened.indent))
  | none => String.ofList (l.dropIndent 0)

/-- Reads a line as the given kind of tokens. -/
def lineContent? (m : Matcher) (kind : TokenKind) (l : Line) : Option Content :=
  match kind with
  | .eof => none
  | .empty => if l.isEmpty then some { indent := l.indent } else none
  | .comment => if l.startsWith "#" then some { text := some l.raw, indent := 0 } else none
  | .tagLine => if l.startsWith "@" then some { items := l.words, indent := l.indent } else none
  | .featureLine => m.title? .feature l
  | .backgroundLine => m.title? .background l
  | .scenarioLine => m.title? .scenario l
  | .scenarioOutlineLine => m.title? .scenarioOutline l
  | .examplesLine => m.title? .examples l
  | .stepLine => m.step? l
  | .docStringSeparator => m.separator? l
  | .tableRow => if l.startsWith "|" then some { items := l.cells, indent := l.indent } else none
  | .language => l.languageTag?.map fun tag => { text := some tag, indent := l.indent }
  | .other => some { text := some (m.freeText l), indent := 0 }

/-- Reads a line, or the end of the source, as the given kind of tokens. -/
def content? (m : Matcher) (kind : TokenKind) : Option Line → Option Content
  | some l => m.lineContent? kind l
  | none => if kind = .eof then some { indent := 0 } else none

/-- The doc string that is open behind a separator line. -/
def docStringAfter (m : Matcher) (l : Line) : Option OpenDocString :=
  match m.docString with
  | some _ => none
  | none => (Separator.ofLine? l).map fun separator => ⟨separator, l.indent⟩

/-- The matcher behind a token that has been read as the given kind. -/
def after (m : Matcher) (kind : TokenKind) (t : Token) (content : Content) :
    Except DialectError Matcher :=
  match kind with
  | .language =>
    match m.resolver.resolve (content.text.getD "") ⟨t.number, t.lineIndent + 1⟩ with
    | .ok (dialect, resolver) => .ok { m with resolver := resolver, dialect := dialect }
    | .error e => .error e
  | .docStringSeparator => .ok { m with docString := t.line.bind m.docStringAfter }
  | _ => .ok m

/--
Reads a token as the given kind.  The answer is empty when the token is not of that kind, and an
error when it is a pragma for a language that cannot be used.
-/
def matchAs (m : Matcher) (kind : TokenKind) (t : Token) :
    Except DialectError (Option (Matcher × Token)) :=
  match m.content? kind t.line with
  | none => .ok none
  | some content =>
    match m.after kind t content with
    | .ok next => .ok (some (next, t.readAs { content with kind := kind, dialect := next.dialect }))
    | .error e => .error e

/-- The kinds of tokens in the order in which a line is tried without a grammar. -/
def classifyOrder : List TokenKind :=
  [.eof, .empty, .language, .comment, .tagLine, .docStringSeparator, .tableRow, .featureLine,
   .backgroundLine, .scenarioLine, .scenarioOutlineLine, .examplesLine, .stepLine, .other]

/-- Reads a token as the first of the given kinds that it is of, or leaves it as it is. -/
def classifyAmong (m : Matcher) (t : Token) :
    List TokenKind → Except DialectError (TokenKind × Matcher × Token)
  | [] => .ok (.other, m, t)
  | kind :: kinds =>
    match m.matchAs kind t with
    | .ok (some (next, read)) => .ok (kind, next, read)
    | .ok none => classifyAmong m t kinds
    | .error e => .error e

/-- Reads a token without a grammar, as the first kind that it is of. -/
def classify (m : Matcher) (t : Token) : Except DialectError (TokenKind × Matcher × Token) :=
  m.classifyAmong t classifyOrder

/-- What is recorded when a token is read as the given kind. -/
def matchEvents (m : Matcher) (kind : TokenKind) (t : Token) : List Event :=
  let switching :=
    match kind, m.content? kind t.line with
    | .language, some content => m.resolver.events (content.text.getD "")
    | _, _ => []
  match m.matchAs kind t with
  | .ok (some (next, read)) =>
    let switched :=
      if kind = .language then [.dialectSwitched t.number next.dialect.language] else []
    switching ++ switched ++ [.matched read]
  | _ => switching

/-- What is recorded when a token is read without a grammar. -/
def classifyEvents (m : Matcher) (t : Token) : List Event :=
  match classifyOrder.find? fun kind => (m.content? kind t.line).isSome with
  | some kind => m.matchEvents kind t
  | none => []

end Matcher
end Gherkin
