import Gherkin.Proofs.Draft.Acceptance
import Gherkin.Proofs.Reader.Basic

/-!
# Lines that realise a sentence

A sentence of the grammar becomes a document when each of its kinds is written
as a line of that kind, with blank lines and comments between them.  Outside
doc strings a line must not be mistaken for one of another kind; inside a doc
string only its separator matters.
-/

namespace Gherkin

/-- A line of a document, with what it is meant as. -/
inductive Entry where
  /-- A line of the sentence. -/
  | line (kind : TokenKind) (line : Line)
  | blank (line : Line)
  | comment (line : Line)

namespace Entry

/-- The line as it is written. -/
def text : Entry → Line
  | line _ l => l
  | blank l => l
  | comment l => l

/-- The kind that the line adds to the sentence. -/
def kind? : Entry → Option TokenKind
  | line kind _ => some kind
  | blank _ => none
  | comment _ => none

/-- The sentence that lines are meant as. -/
def sentence (entries : List Entry) : List TokenKind :=
  entries.filterMap kind?

/-- The number of cells that the next row of the same table must have, if there
is a table in front of it. -/
def columns (before : Option Nat) : Entry → Option Nat
  | line .tableRow l => some l.cells.length
  | line _ _ => none
  | blank _ => before
  | comment _ => before

/-- A row has as many cells as it must have. -/
def fits (before : Option Nat) : Entry → Bool
  | line .tableRow l => before.all (· == l.cells.length)
  | _ => true

/-- Every row has as many cells as the row of the same table in front of it. -/
def evenRows (before : Option Nat) : List Entry → Bool
  | [] => true
  | e :: es => e.fits before && evenRows (e.columns before) es

/-- What a line is accepted as, where `previous` is what the line in front of it
has been accepted as.  Blank lines behind a description are read as lines of it. -/
def acceptedKind (previous : TokenKind) : Entry → TokenKind
  | line kind _ => kind
  | comment _ => .comment
  | blank _ => if previous = .other then .other else .empty

/-- What lines are accepted as. -/
def acceptedKinds (previous : TokenKind) : List Entry → List TokenKind
  | [] => []
  | e :: es => e.acceptedKind previous :: acceptedKinds (e.acceptedKind previous) es

/-- Whether there is a line of the sentence behind a line, where `before` says so
for the lines in front of it. -/
def started (before : Bool) : Entry → Bool
  | line _ _ => true
  | blank _ => before
  | comment _ => before

/-- The tokens of lines behind the first `number` lines, and the end of the
source. -/
def tokens (number : Nat) : List Entry → List Token
  | [] => [.eof (number + 1)]
  | e :: es => .ofLine e.text (number + 1) :: tokens (number + 1) es

end Entry

namespace Matcher

/-- A line is of the given kind, and of no other kind except that every line is
free text and every pragma is a comment. -/
def isOnly (m : Matcher) (kind : TokenKind) (l : Line) : Bool :=
  (m.lineContent? kind l).isSome &&
    classifyOrder.all fun k => !(m.lineContent? k l).isSome || State.mayBe kind k

/-- The matcher behind a line that is read as the given kind. -/
def behind? (m : Matcher) (kind : TokenKind) (l : Line) : Option Matcher :=
  match m.matchAs kind (.ofLine l 0) with
  | .ok (some (next, _)) => some next
  | _ => none

/-- The lines can be told apart as they are meant, where `started` says whether
there is a line of the sentence in front of them.  Comments stand outside
doc strings, do not come in front of a line of a description, and are no pragmas
in front of the sentence; blank lines stand outside doc strings. -/
def realises (started : Bool) (m : Matcher) : List Entry → Bool
  | [] => true
  | entry :: entries =>
    match m.docString, entry with
    | none, .line kind l =>
      m.isOnly kind l && (m.behind? kind l).any (realises true · entries)
    | none, .blank l => l.isEmpty && realises started m entries
    | none, .comment l =>
      l.startsWith "#" && (started || l.languageTag?.isNone) &&
        (Entry.sentence entries).head? != some .other && realises started m entries
    | some opened, .line .other l =>
      !l.startsWith opened.separator.text && realises true m entries
    | some opened, .line .docStringSeparator l =>
      l.startsWith opened.separator.text &&
        (m.behind? .docStringSeparator l).any (realises true · entries)
    | some _, _ => false

end Matcher
end Gherkin
