import Gherkin.Grammar
import Mathlib.Tactic.Common

/-!
# Syntax trees

The tree of a sentence of the grammar, over lines of any type.  A tree holds
the lines of the sentence and nothing else: blank lines and comments between
them have no place in it.
-/

namespace Gherkin

/-- The kinds of the lines that trees hold. -/
def TokenKind.isTerminal : TokenKind → Bool
  | eof | empty | comment => false
  | _ => true

namespace Tree

variable {α : Type}

/-- A title line and the lines of its description. -/
structure Heading (α : Type) where
  line : α
  description : List α

/-- What stands below a step. -/
inductive Argument (α : Type) where
  | table (first : α) (rest : List α)
  | docString (opening : α) (content : List α) (closing : α)

/-- A step line and what stands below it. -/
structure Step (α : Type) where
  line : α
  argument : Option (Argument α)

/-- A title line with its description and its steps. -/
structure Body (α : Type) where
  heading : Heading α
  steps : List (Step α)

/-- Examples, which need no tags and no rows. -/
structure Examples (α : Type) where
  tags : List α
  heading : Heading α
  rows : List α

/-- An outline with its examples. -/
structure Outline (α : Type) where
  tags : List α
  body : Body α
  examples : List (Examples α)

/-- A scenario or an outline. -/
inductive Definition (α : Type) where
  | scenario (tags : List α) (body : Body α)
  | outline (outline : Outline α)

/-- What comes before the blocks of a feature. -/
structure Header (α : Type) where
  language : Option α
  tags : List α
  heading : Heading α

/-- A feature. -/
structure Feature (α : Type) where
  header : Header α
  background : Option (Body α)
  definitions : List (Definition α)

/-- The lines of a run of lines of one kind. -/
def linesOf (kind : TokenKind) (run : List α) : List (TokenKind × α) :=
  run.map (kind, ·)

namespace Heading

/-- The lines of a heading whose title line is of the given kind. -/
def lines (kind : TokenKind) (h : Heading α) : List (TokenKind × α) :=
  (kind, h.line) :: linesOf .other h.description

end Heading

namespace Argument

/-- The lines below a step. -/
def lines : Argument α → List (TokenKind × α)
  | table first rest => linesOf .tableRow (first :: rest)
  | docString opening content closing =>
    (.docStringSeparator, opening) :: linesOf .other content ++
      [(.docStringSeparator, closing)]

end Argument

namespace Step

/-- The lines of a step. -/
def lines (s : Step α) : List (TokenKind × α) :=
  (.stepLine, s.line) :: s.argument.elim [] Argument.lines

end Step

namespace Body

/-- The lines of a block whose title line is of the given kind. -/
def lines (kind : TokenKind) (b : Body α) : List (TokenKind × α) :=
  b.heading.lines kind ++ b.steps.flatMap Step.lines

/-- The block with another step. -/
def addStep (b : Body α) (s : Step α) : Body α :=
  { b with steps := b.steps ++ [s] }

end Body

namespace Examples

/-- The lines of examples. -/
def lines (e : Examples α) : List (TokenKind × α) :=
  linesOf .tagLine e.tags ++ e.heading.lines .examplesLine ++ linesOf .tableRow e.rows

end Examples

namespace Outline

/-- The lines of an outline. -/
def lines (o : Outline α) : List (TokenKind × α) :=
  linesOf .tagLine o.tags ++ o.body.lines .scenarioOutlineLine ++
    o.examples.flatMap Examples.lines

/-- The outline with more examples. -/
def add (o : Outline α) (e : Examples α) : Outline α :=
  { o with examples := o.examples ++ [e] }

end Outline

namespace Definition

/-- The lines of a scenario or an outline. -/
def lines : Definition α → List (TokenKind × α)
  | scenario tags body => linesOf .tagLine tags ++ body.lines .scenarioLine
  | outline o => o.lines

end Definition

namespace Header

/-- The lines of the header of a feature. -/
def lines (h : Header α) : List (TokenKind × α) :=
  linesOf .language h.language.toList ++ linesOf .tagLine h.tags ++
    h.heading.lines .featureLine

end Header

namespace Feature

/-- The lines of a feature. -/
def lines (f : Feature α) : List (TokenKind × α) :=
  f.header.lines ++ f.background.elim [] (Body.lines .backgroundLine) ++
    f.definitions.flatMap Definition.lines

/-- The feature with another definition. -/
def add (f : Feature α) (d : Definition α) : Feature α :=
  { f with definitions := f.definitions ++ [d] }

end Feature

/-- The lines of a document, which may have no feature. -/
def lines (document : Option (Feature α)) : List (TokenKind × α) :=
  document.elim [] Feature.lines

/-- What a line adds to the lines of a tree. -/
def lineOf (kind : TokenKind) (a : α) : List (TokenKind × α) :=
  if kind.isTerminal then [(kind, a)] else []

/-! ### Adding parts adds their lines -/

@[simp] theorem linesOf_nil (kind : TokenKind) : linesOf kind ([] : List α) = [] := rfl

@[simp] theorem linesOf_cons (kind : TokenKind) (a : α) (run : List α) :
    linesOf kind (a :: run) = (kind, a) :: linesOf kind run := rfl

@[simp] theorem linesOf_append (kind : TokenKind) (run run' : List α) :
    linesOf kind (run ++ run') = linesOf kind run ++ linesOf kind run' :=
  List.map_append

@[simp] theorem Outline.lines_add (o : Outline α) (e : Examples α) :
    (o.add e).lines = o.lines ++ e.lines := by
  simp [Outline.lines, Outline.add]

@[simp] theorem Feature.lines_add (f : Feature α) (d : Definition α) :
    (f.add d).lines = f.lines ++ d.lines := by
  simp [Feature.lines, Feature.add]

end Tree
end Gherkin
