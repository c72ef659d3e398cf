import Gherkin.Document.Fold
import Gherkin.Log

/-!
# Building documents

A builder opens rules, hands tokens to the innermost open rule, and closes rules, which folds them
into a child of the rule around them.  Comments wait for the next line that can carry them.
-/

namespace Gherkin

/-- An open rule and its children so far. -/
structure Scope where
  rule : Rule
  children : List Node

/-- The open rules, innermost first, inside a root that is never closed. -/
structure Builder where
  root : List Node := []
  scopes : List Scope := []
  /-- The comments behind the last line that carries comments. -/
  pending : List Comment := []

namespace Builder

/-- The builder before anything has been opened. -/
def reset (_ : Builder) : Builder :=
  {}

/-- The lines that carry the comments in front of them. -/
def carriesComments : TokenKind → Bool
  | .featureLine | .backgroundLine | .scenarioLine | .scenarioOutlineLine | .examplesLine
  | .stepLine => true
  | _ => false

/-- Opens a rule inside the innermost open rule. -/
def start (b : Builder) (rule : Rule) : Builder :=
  { b with scopes := ⟨rule, []⟩ :: b.scopes }

/-- Adds a child to the innermost open rule. -/
def add (b : Builder) (node : Node) : Builder :=
  match b.scopes with
  | [] => { b with root := b.root ++ [node] }
  | scope :: outer =>
    { b with scopes := { scope with children := scope.children ++ [node] } :: outer }

/-- Takes a token in as a child, or as a comment that waits.  A token must have been read. -/
def build (b : Builder) (t : Token) : Builder :=
  match t.reading with
  | none => b
  | some reading =>
    if reading.kind = .comment then
      { b with pending := b.pending ++ [⟨t.location, reading.text.getD ""⟩] }
    else if carriesComments reading.kind then
      { b with pending := [] }.add (.token ⟨t.number, reading, b.pending⟩)
    else b.add (.token ⟨t.number, reading, []⟩)

/--
Closes the innermost open rule.  An uneven table is dropped with an error; the root stays open.
-/
def close (b : Builder) : Builder × Option SyntaxError :=
  match b.scopes with
  | [] => (b, none)
  | scope :: outer =>
    let b := { b with scopes := outer }
    match Fold.node? scope.rule scope.children with
    | .ok (some node) => (b.add node, none)
    | .ok none => (b, none)
    | .error e => (b, some e)

/-- What is recorded when the innermost open rule is closed. -/
def closeEvents (b : Builder) : List Event :=
  (b.scopes.head?.map fun scope => Event.ruleEnded scope.rule).toList

/-- Replaces the first document among the nodes by the empty one. -/
def clearFirst : List Node → List Node
  | [] => []
  | .document _ :: nodes => .document {} :: nodes
  | node :: nodes => node :: clearFirst nodes

/-- The last document that has been closed. -/
def result? (b : Builder) : Option Document :=
  b.root.reverse.findSome? Node.document?

/-- The builder after its last document has been taken out, which leaves an empty one. -/
def clearResult (b : Builder) : Builder :=
  { b with root := (clearFirst b.root.reverse).reverse }

end Builder
end Gherkin
