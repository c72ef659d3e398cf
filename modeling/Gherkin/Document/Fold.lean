import Gherkin.Document.Table
import Gherkin.Rule

/-!
# Folding rules into documents

While a rule is open its children are collected: tokens that have been read, and what the rules
inside it have been folded into.  When the rule is closed it is folded in turn.  A rule takes from
its children what it knows and drops the rest.
-/

namespace Gherkin

/-- A token that has been read, and the comments in front of it. -/
structure Leaf where
  line : Nat
  reading : Reading
  comments : List Comment

/-- A child of a rule. -/
inductive Node where
  | token (leaf : Leaf)
  | group (rule : Rule) (children : List Node)
  | description (text : String)
  | step (step : Step)
  | dataTable (table : DataTable)
  | docString (docString : DocString)
  | definition (definition : Definition)
  | examples (examples : Examples)
  | examplesTable (rows : List TableRow)
  | feature (feature : Feature)
  | document (document : Document)

namespace Leaf

/-- A token stands behind the indentation of its line. -/
def location (l : Leaf) : Location :=
  ⟨l.line, l.reading.indent + 1⟩

/-- The keyword of the token; a token without one has the empty keyword. -/
def keyword (l : Leaf) : String :=
  l.reading.keyword.getD ""

/-- The text of the token; a token without one has the empty text. -/
def text (l : Leaf) : String :=
  l.reading.text.getD ""

/-- The words of a tag line as tags. -/
def tags (l : Leaf) : List Tag :=
  l.reading.items.map fun item => ⟨⟨l.line, item.column⟩, item.text⟩

/-- The cells of a table row. -/
def row (l : Leaf) : TableRow where
  location := l.location
  cells := l.reading.items.map fun item => ⟨⟨l.line, item.column⟩, item.text⟩

end Leaf

namespace Node

/-- The token that a child is, if it is of the given kind. -/
def leaf? (kind : TokenKind) : Node → Option Leaf
  | token leaf => if leaf.reading.kind = kind then some leaf else none
  | _ => none

/-- The children of an inner rule that has not been folded any further. -/
def group? (rule : Rule) : Node → Option (List Node)
  | group r children => if r = rule then some children else none
  | _ => none

/-- A description, trimmed, unless nothing is left of it. -/
def description? : Node → Option String
  | description text =>
    let trimmed := Text.trimString text
    if trimmed.isEmpty then none else some trimmed
  | _ => none

/-- The step that a child is. -/
def step? : Node → Option Step
  | step s => some s
  | _ => none

/-- The table or doc string that a child is. -/
def argument? : Node → Option StepArgument
  | dataTable table => some (.dataTable table)
  | docString d => some (.docString d)
  | _ => none

/-- The definition that a child is. -/
def definition? : Node → Option Definition
  | definition d => some d
  | _ => none

/-- The examples that a child is. -/
def examples? : Node → Option Examples
  | examples e => some e
  | _ => none

/-- The rows of the examples table that a child is. -/
def rows? : Node → Option (List TableRow)
  | examplesTable rows => some rows
  | _ => none

/-- The feature that a child is. -/
def feature? : Node → Option Feature
  | feature f => some f
  | _ => none

/-- The document that a child is. -/
def document? : Node → Option Document
  | document d => some d
  | _ => none

end Node

namespace Fold

/-- The tokens of a kind among the children of a rule. -/
def leaves (kind : TokenKind) (children : List Node) : List Leaf :=
  children.filterMap (Node.leaf? kind)

/-- The first token of a kind among the children of a rule. -/
def leaf? (kind : TokenKind) (children : List Node) : Option Leaf :=
  children.findSome? (Node.leaf? kind)

/-- The children of the first inner rule of a kind that has not been folded any further. -/
def group? (rule : Rule) (children : List Node) : Option (List Node) :=
  children.findSome? (Node.group? rule)

/-- The steps among the children of a rule. -/
def steps (children : List Node) : List Step :=
  children.filterMap Node.step?

/-- The tags of all lines of the first run of tag lines. -/
def tags (children : List Node) : List Tag :=
  match group? .tags children with
  | some lines => (leaves .tagLine lines).flatMap Leaf.tags
  | none => []

/-- The title line of a block, with the description among the children of its rule. -/
def title (line : Leaf) (children : List Node) : Title where
  location := line.location
  comments := line.comments
  keyword := line.keyword
  name := line.text
  description := children.findSome? Node.description?

/-- The lines of a description without the blank lines at its end, joined by line breaks. -/
def description (children : List Node) : String :=
  let lines := (leaves .other children).map Leaf.text
  let kept := (lines.reverse.dropWhile fun line => (Text.trimString line).isEmpty).reverse
  "\n".intercalate kept

/-- The table rows among the children of a rule. -/
def rows (children : List Node) : List TableRow :=
  (leaves .tableRow children).map Leaf.row

/--
A doc string: its first separator line names the type, and the lines behind it are the content.
-/
def docString? (children : List Node) : Option DocString :=
  (leaf? .docStringSeparator children).map fun opening =>
    { location := opening.location
      contentType := if opening.text.isEmpty then none else some opening.text
      content := "\n".intercalate ((leaves .other children).map Leaf.text) }

/-- A step, with the first table or doc string below it. -/
def step? (children : List Node) : Option Step :=
  (leaf? .stepLine children).map fun line =>
    { location := line.location
      comments := line.comments
      keyword := line.keyword
      text := line.text
      argument := children.findSome? Node.argument? }

/-- A background, with its steps. -/
def background? (children : List Node) : Option Background :=
  (leaf? .backgroundLine children).map fun line =>
    { title line children with steps := steps children }

/-- A scenario or an outline, whichever rule is there, with the tags in front of it. -/
def definition? (children : List Node) : Option Definition :=
  match group? .scenario children with
  | some inner =>
    (leaf? .scenarioLine inner).map fun line =>
      .scenario { title line inner with tags := tags children, steps := steps inner }
  | none =>
    (group? .scenarioOutline children).bind fun inner =>
      (leaf? .scenarioOutlineLine inner).map fun line =>
        .outline
          { title line inner with
            tags := tags children
            steps := steps inner
            examples := inner.filterMap Node.examples? }

/-- Examples, whose first row is the header. -/
def examples? (children : List Node) : Option Examples :=
  (group? .examples children).bind fun inner =>
    (leaf? .examplesLine inner).map fun line =>
      let rows := (inner.filterMap Node.rows?).flatten
      { title line inner with tags := tags children, header := rows.head?, body := rows.tail }

/-- A feature takes its title line, tags and description from its header. -/
def feature? (children : List Node) : Option Feature :=
  (group? .featureHeader children).bind fun header =>
    (leaf? .featureLine header).map fun line =>
      { title line header with
        tags := tags header
        definitions := children.filterMap Node.definition?
        language := line.reading.dialect.language }

/--
What a rule is folded into when it is closed.  Only uneven tables are an error.  A rule whose
title line is missing is folded into nothing.
-/
def node? (rule : Rule) (children : List Node) : Except SyntaxError (Option Node) :=
  match rule with
  | .step => .ok ((step? children).map .step)
  | .docString => .ok ((docString? children).map .docString)
  | .dataTable =>
    match DataTable.ofRows (rows children) with
    | .ok table => .ok (some (.dataTable table))
    | .error e => .error e
  | .examplesTable =>
    match unevenError? (rows children) with
    | none => .ok (some (.examplesTable (rows children)))
    | some e => .error e
  | .description => .ok (some (.description (description children)))
  | .background => .ok ((background? children).map fun b => .definition (.background b))
  | .scenarioDefinition => .ok ((definition? children).map .definition)
  | .examplesDefinition => .ok ((examples? children).map .examples)
  | .feature => .ok ((feature? children).map .feature)
  | .document => .ok (some (.document ⟨children.findSome? Node.feature?⟩))
  | .root | .featureHeader | .scenario | .scenarioOutline | .examples | .tags =>
    .ok (some (.group rule children))

end Fold
end Gherkin
