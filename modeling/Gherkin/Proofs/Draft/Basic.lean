import Gherkin.Proofs.Tree.Basic

/-!
# Drafts

A draft is the part of a syntax tree that has been read, with a place at which
the next line goes on.  Drafts refine the states of the grammar: a state is a
draft without its lines.
-/

namespace Gherkin

namespace Draft

variable {α : Type}

/-- A title line and what has been read of its description. -/
inductive Heading (α : Type) where
  | title (line : α)
  | description (line first : α) (rest : List α)
  | comments (heading : Tree.Heading α)

/-- A step line and what has been read below it. -/
inductive Step (α : Type) where
  | bare (line : α)
  | table (line first : α) (rest : List α)
  | docString (line opening : α) (content : List α)
  | closed (line opening : α) (content : List α) (closing : α)

/-- A block with steps up to the line that has been read last. -/
inductive Body (α : Type) where
  | heading (heading : Heading α)
  | step (heading : Tree.Heading α) (steps : List (Tree.Step α)) (last : Step α)

namespace Heading

/-- The place behind the last line. -/
def place : Heading α → HeaderPlace
  | title _ => .title
  | description _ _ _ => .description
  | comments _ => .comments

/-- The heading, if it ends here. -/
def tree : Heading α → Tree.Heading α
  | title line => ⟨line, []⟩
  | description line first rest => ⟨line, first :: rest⟩
  | comments heading => heading

/-- The heading behind another line.  A blank line in a description is part of
it. -/
def push (h : Heading α) (kind : TokenKind) (a : α) : Option (Heading α) :=
  match h, kind with
  | title line, .other => some (description line a [])
  | description line first rest, .other => some (description line first (rest ++ [a]))
  | description _ _ _, .empty => none
  | h, .comment => some (comments h.tree)
  | h, .empty => some h
  | _, _ => none

end Heading

namespace Step

/-- The place behind the last line. -/
def place : Step α → StepPlace
  | bare _ => .step
  | table _ _ _ => .dataTable
  | docString _ _ _ => .docString
  | closed _ _ _ _ => .afterDocString

/-- The step, if it can end here. -/
def tree? : Step α → Option (Tree.Step α)
  | bare line => some ⟨line, none⟩
  | table line first rest => some ⟨line, some (.table first rest)⟩
  | docString _ _ _ => none
  | closed line opening content closing =>
    some ⟨line, some (.docString opening content closing)⟩

/-- The lines that have been read. -/
def lines : Step α → List (TokenKind × α)
  | bare line => [(.stepLine, line)]
  | table line first rest => (.stepLine, line) :: Tree.linesOf .tableRow (first :: rest)
  | docString line opening content =>
    (.stepLine, line) :: (.docStringSeparator, opening) :: Tree.linesOf .other content
  | closed line opening content closing =>
    (.stepLine, line) :: (Tree.Argument.docString opening content closing).lines

/-- The step behind another line below it. -/
def push (s : Step α) (kind : TokenKind) (a : α) : Option (Step α) :=
  match s, kind with
  | docString line opening content, .other => some (docString line opening (content ++ [a]))
  | docString line opening content, .docStringSeparator =>
    some (closed line opening content a)
  | docString _ _ _, _ => none
  | bare line, .tableRow => some (table line a [])
  | table line first rest, .tableRow => some (table line first (rest ++ [a]))
  | bare line, .docStringSeparator => some (docString line a [])
  | s, .comment => some s
  | s, .empty => some s
  | _, _ => none

end Step

namespace Body

/-- The state behind the last line of a block. -/
def state (block : StepBlock) : Body α → State
  | heading h => .header block.block h.place
  | step _ _ last => .steps block last.place

/-- The block, if it can end here. -/
def tree? : Body α → Option (Tree.Body α)
  | heading h => some ⟨h.tree, []⟩
  | step h steps last => last.tree?.map fun s => ⟨h, steps ++ [s]⟩

/-- The lines that have been read. -/
def lines (kind : TokenKind) : Body α → List (TokenKind × α)
  | heading h => h.tree.lines kind
  | step h steps last => (⟨h, steps⟩ : Tree.Body α).lines kind ++ last.lines

/-- The block behind another line that belongs to it. -/
def push (b : Body α) (kind : TokenKind) (a : α) : Option (Body α) :=
  if kind = .stepLine then b.tree?.map fun t => step t.heading t.steps (.bare a)
  else
    match b with
    | heading h => (h.push kind a).map heading
    | step h steps last => (last.push kind a).map (step h steps)

end Body

end Draft

/-- A document up to the line that has been read last. -/
inductive Draft (α : Type) where
  | start
  | language (line : α)
  | featureTags (language : Option α) (first : α) (rest : List α)
  | feature (language : Option α) (tags : List α) (heading : Draft.Heading α)
  | background (header : Tree.Header α) (body : Draft.Body α)
  | definitionTags (feature : Tree.Feature α) (first : α) (rest : List α)
  | scenario (feature : Tree.Feature α) (tags : List α) (body : Draft.Body α)
  | outline (feature : Tree.Feature α) (tags : List α) (body : Draft.Body α)
  | examplesTags (feature : Tree.Feature α) (outline : Tree.Outline α) (first : α)
    (rest : List α)
  | examples (feature : Tree.Feature α) (outline : Tree.Outline α) (tags : List α)
    (heading : Draft.Heading α)
  | examplesTable (feature : Tree.Feature α) (outline : Tree.Outline α) (tags : List α)
    (heading : Tree.Heading α) (first : α) (rest : List α)
  | finished (document : Option (Tree.Feature α))

namespace Draft

variable {α : Type}

/-- The state of the grammar behind the last line. -/
def state : Draft α → State
  | start => .start
  | language _ => .language
  | featureTags _ _ _ => .featureTags
  | feature _ _ h => .header .feature h.place
  | background _ b => b.state .background
  | definitionTags _ _ _ => .definitionTags
  | scenario _ _ b => b.state .scenario
  | outline _ _ b => b.state .outline
  | examplesTags _ _ _ _ => .examplesTags
  | examples _ _ _ h => .header .examples h.place
  | examplesTable _ _ _ _ _ _ => .examplesTable
  | finished _ => .finished

/-- The feature, if it can end here. -/
def feature? : Draft α → Option (Tree.Feature α)
  | feature lang tags h => some ⟨⟨lang, tags, h.tree⟩, none, []⟩
  | background header b => b.tree?.map fun t => ⟨header, some t, []⟩
  | scenario f tags b => b.tree?.map fun t => f.add (.scenario tags t)
  | outline f tags b => b.tree?.map fun t => f.add (.outline ⟨tags, t, []⟩)
  | examples f o tags h => some (f.add (.outline (o.add ⟨tags, h.tree, []⟩)))
  | examplesTable f o tags h first rest =>
    some (f.add (.outline (o.add ⟨tags, h, first :: rest⟩)))
  | _ => none

/-- The outline that is being read and the feature in front of it, if more
examples may follow here. -/
def outline? : Draft α → Option (Tree.Feature α × Tree.Outline α)
  | outline f tags b => b.tree?.map fun t => (f, ⟨tags, t, []⟩)
  | examples f o tags h => some (f, o.add ⟨tags, h.tree, []⟩)
  | examplesTable f o tags h first rest => some (f, o.add ⟨tags, h, first :: rest⟩)
  | _ => none

/-- The document, if it can end here. -/
def document? : Draft α → Option (Option (Tree.Feature α))
  | start => some none
  | d => d.feature?.map some

/-- The lines that have been read. -/
def lines : Draft α → List (TokenKind × α)
  | start => []
  | language line => [(.language, line)]
  | featureTags lang first rest =>
    Tree.linesOf .language lang.toList ++ Tree.linesOf .tagLine (first :: rest)
  | feature lang tags h => (⟨lang, tags, h.tree⟩ : Tree.Header α).lines
  | background header b => header.lines ++ b.lines .backgroundLine
  | definitionTags f first rest => f.lines ++ Tree.linesOf .tagLine (first :: rest)
  | scenario f tags b => f.lines ++ Tree.linesOf .tagLine tags ++ b.lines .scenarioLine
  | outline f tags b => f.lines ++ Tree.linesOf .tagLine tags ++ b.lines .scenarioOutlineLine
  | examplesTags f o first rest => f.lines ++ o.lines ++ Tree.linesOf .tagLine (first :: rest)
  | examples f o tags h => f.lines ++ o.lines ++ (⟨tags, h.tree, []⟩ : Tree.Examples α).lines
  | examplesTable f o tags h first rest =>
    f.lines ++ o.lines ++ (⟨tags, h, first :: rest⟩ : Tree.Examples α).lines
  | finished document => Tree.lines document

/-- The draft behind a tag line, where `ahead` says whether the tags belong to
examples. -/
def pushTags (d : Draft α) (ahead : Bool) (a : α) : Option (Draft α) :=
  match d with
  | start => some (featureTags none a [])
  | language line => some (featureTags (some line) a [])
  | featureTags lang first rest => some (featureTags lang first (rest ++ [a]))
  | definitionTags f first rest => some (definitionTags f first (rest ++ [a]))
  | examplesTags f o first rest => some (examplesTags f o first (rest ++ [a]))
  | d =>
    match d.outline?, ahead with
    | some (f, o), true => some (examplesTags f o a [])
    | _, _ => d.feature?.map fun f => definitionTags f a []

/-- The draft behind the title line of a feature. -/
def pushFeature (d : Draft α) (a : α) : Option (Draft α) :=
  match d with
  | start => some (feature none [] (.title a))
  | language line => some (feature (some line) [] (.title a))
  | featureTags lang first rest => some (feature lang (first :: rest) (.title a))
  | _ => none

/-- The draft behind the title line of a background. -/
def pushBackground (d : Draft α) (a : α) : Option (Draft α) :=
  match d with
  | feature lang tags h => some (background ⟨lang, tags, h.tree⟩ (.heading (.title a)))
  | _ => none

/-- The draft behind the title line of a scenario or an outline. -/
def pushDefinition (d : Draft α)
    (definition : Tree.Feature α → List α → Body α → Draft α) (a : α) :
    Option (Draft α) :=
  match d with
  | definitionTags f first rest => some (definition f (first :: rest) (.heading (.title a)))
  | d => d.feature?.map fun f => definition f [] (.heading (.title a))

/-- The draft behind the title line of examples. -/
def pushExamples (d : Draft α) (a : α) : Option (Draft α) :=
  match d with
  | examplesTags f o first rest => some (examples f o (first :: rest) (.title a))
  | d => d.outline?.map fun (f, o) => examples f o [] (.title a)

/-- The draft behind a line that ends no block. -/
def pushInside (d : Draft α) (kind : TokenKind) (a : α) : Option (Draft α) :=
  match d, kind with
  | feature lang tags h, kind => (h.push kind a).map (feature lang tags)
  | background header b, kind => (b.push kind a).map (background header)
  | scenario f tags b, kind => (b.push kind a).map (scenario f tags)
  | outline f tags b, kind => (b.push kind a).map (outline f tags)
  | examples f o tags h, .tableRow => some (examplesTable f o tags h.tree a [])
  | examples f o tags h, kind => (h.push kind a).map (examples f o tags)
  | examplesTable f o tags h first rest, .tableRow =>
    some (examplesTable f o tags h first (rest ++ [a]))
  | finished _, _ => none
  | d, .comment => some d
  | d, .empty => some d
  | _, _ => none

/-- The draft behind another line, where `ahead` says whether the title line of
examples comes before any line but blank lines, comments and tags. -/
def push (d : Draft α) (kind : TokenKind) (ahead : Bool) (a : α) : Option (Draft α) :=
  match kind with
  | .eof => d.document?.map finished
  | .language => match d with
    | start => some (language a)
    | _ => none
  | .tagLine => d.pushTags ahead a
  | .featureLine => d.pushFeature a
  | .backgroundLine => d.pushBackground a
  | .scenarioLine => d.pushDefinition scenario a
  | .scenarioOutlineLine => d.pushDefinition outline a
  | .examplesLine => d.pushExamples a
  | kind => d.pushInside kind a

end Draft
end Gherkin
