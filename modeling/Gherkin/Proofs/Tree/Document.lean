import Gherkin.Document.Fold
import Gherkin.Proofs.Text.Trim
import Gherkin.Proofs.Tree.Basic

/-!
# The document of a tree

A syntax tree of tokens holds a document.  Folding the rules of the grammar,
each with the children that the tokens of its part of the tree leave behind,
builds that document.
-/

namespace Gherkin

open Gherkin.Tree

/-- The description that lines of free text make: the lines joined and trimmed,
unless nothing is left. -/
def describe (texts : List String) : Option String :=
  let trimmed := Text.trimString ("\n".intercalate texts)
  if trimmed.isEmpty then none else some trimmed

/-- The text of a doc string with the given lines. -/
def joinLines (run : List Leaf) : String :=
  "\n".intercalate (run.map Leaf.text)

namespace Tree

/-- All rows have as many cells as the first one. -/
def EvenRows (first : Leaf) (rest : List Leaf) : Prop :=
  ∀ row ∈ rest, row.reading.items.length = first.reading.items.length

/-- The title that a heading holds. -/
def Heading.title (h : Heading Leaf) : Title where
  location := h.line.location
  comments := h.line.comments
  keyword := h.line.keyword
  name := h.line.text
  description := describe (h.description.map Leaf.text)

/-- The table or doc string that stands below a step. -/
def Argument.document : Argument Leaf → StepArgument
  | table first rest => .dataTable ⟨first.location, (first :: rest).map Leaf.row⟩
  | docString opening content _ =>
    .docString
      { location := opening.location
        contentType := if opening.text.isEmpty then none else some opening.text
        content := joinLines content }

/-- The step that a tree holds. -/
def Step.document (s : Step Leaf) : Gherkin.Step where
  location := s.line.location
  comments := s.line.comments
  keyword := s.line.keyword
  text := s.line.text
  argument := s.argument.map Argument.document

/-- The background that a tree holds. -/
def Body.background (b : Body Leaf) : Background :=
  { b.heading.title with steps := b.steps.map Step.document }

/-- The examples that a tree holds, whose first row is the header. -/
def Examples.document (e : Examples Leaf) : Gherkin.Examples :=
  { e.heading.title with
    tags := e.tags.flatMap Leaf.tags
    header := (e.rows.map Leaf.row).head?
    body := (e.rows.map Leaf.row).tail }

/-- The scenario or outline that a tree holds. -/
def Definition.document : Definition Leaf → Gherkin.Definition
  | scenario tags b =>
    .scenario
      { b.heading.title with
        tags := tags.flatMap Leaf.tags
        steps := b.steps.map Step.document }
  | outline o =>
    .outline
      { o.body.heading.title with
        tags := o.tags.flatMap Leaf.tags
        steps := o.body.steps.map Step.document
        examples := o.examples.map Examples.document }

/-- The feature that a tree holds. -/
def Feature.document (f : Feature Leaf) : Gherkin.Feature :=
  { f.header.heading.title with
    tags := f.header.tags.flatMap Leaf.tags
    definitions :=
      (f.background.map fun b => .background b.background).toList ++
        f.definitions.map Definition.document
    language := f.header.heading.line.reading.dialect.language }

/-- The document that a tree holds. -/
def document (t : Option (Feature Leaf)) : Document :=
  ⟨t.map Feature.document⟩

/-! ### What the parts of a tree leave behind among the children of a rule -/

/-- Tokens as children. -/
def nodesOf (run : List Leaf) : List Node :=
  run.map .token

/-- Tag lines leave a group, unless there are none. -/
def tagNodes : List Leaf → List Node
  | [] => []
  | first :: rest => [.group .tags (nodesOf (first :: rest))]

/-- A description leaves a node, unless it has no lines. -/
def descriptionNodes : List Leaf → List Node
  | [] => []
  | first :: rest => [.description (Fold.description (nodesOf (first :: rest)))]

/-- A heading leaves its title line and its description. -/
def Heading.nodes (h : Heading Leaf) : List Node :=
  .token h.line :: descriptionNodes h.description

/-- What stands below a step leaves a node. -/
def Argument.node (a : Argument Leaf) : Node :=
  match a.document with
  | .dataTable t => .dataTable t
  | .docString d => .docString d

/-- A block leaves its heading and its steps. -/
def Body.nodes (b : Body Leaf) : List Node :=
  b.heading.nodes ++ b.steps.map fun s => .step s.document

/-- The rows of examples leave a node, unless there are none. -/
def rowNodes : List Leaf → List Node
  | [] => []
  | first :: rest => [.examplesTable ((first :: rest).map Leaf.row)]

/-- An outline leaves its block and its examples. -/
def Outline.nodes (o : Outline Leaf) : List Node :=
  o.body.nodes ++ o.examples.map fun e => .examples e.document

/-- A header leaves its pragma, its tags and its heading. -/
def Header.nodes (h : Header Leaf) : List Node :=
  nodesOf h.language.toList ++ tagNodes h.tags ++ h.heading.nodes

/-- A feature leaves its header, its background and its definitions. -/
def Feature.nodes (f : Feature Leaf) : List Node :=
  .group .featureHeader f.header.nodes ::
    (f.document.definitions.map .definition)

end Tree

/-- Every token in a list has been read as the kind that it is listed with. -/
def WellRead (l : List (TokenKind × Leaf)) : Prop :=
  ∀ x ∈ l, x.2.reading.kind = x.1

namespace WellRead

variable {l l' : List (TokenKind × Leaf)}

@[simp] theorem nil : WellRead [] := by
  simp [WellRead]

@[simp] theorem cons_iff {kind : TokenKind} {leaf : Leaf} :
    WellRead ((kind, leaf) :: l) ↔ leaf.reading.kind = kind ∧ WellRead l := by
  simp [WellRead]

@[simp] theorem append_iff : WellRead (l ++ l') ↔ WellRead l ∧ WellRead l' := by
  simp only [WellRead, List.mem_append, or_imp, forall_and]

theorem linesOf_iff {kind : TokenKind} {run : List Leaf} :
    WellRead (linesOf kind run) ↔ ∀ leaf ∈ run, leaf.reading.kind = kind := by
  simp [WellRead, linesOf]

end WellRead

namespace Fold

/-! ### Reading children -/

@[simp] theorem leaves_append (kind : TokenKind) (children children' : List Node) :
    leaves kind (children ++ children') = leaves kind children ++ leaves kind children' :=
  List.filterMap_append

theorem leaves_nodesOf {kind : TokenKind} {run : List Leaf}
    (h : ∀ leaf ∈ run, leaf.reading.kind = kind) : leaves kind (nodesOf run) = run := by
  induction run with
  | nil => rfl
  | cons leaf run ih =>
      have hrest := ih fun leaf hleaf => h leaf (by simp [hleaf])
      rw [leaves] at hrest
      rw [nodesOf, List.map_cons, leaves, List.filterMap_cons]
      simp only [Node.leaf?, h leaf (by simp), if_true]
      exact congrArg (leaf :: ·) hrest

theorem leaves_nodesOf_of_ne {kind : TokenKind} {run : List Leaf}
    (h : ∀ leaf ∈ run, leaf.reading.kind ≠ kind) : leaves kind (nodesOf run) = [] := by
  simp only [leaves, nodesOf, List.filterMap_map, List.filterMap_eq_nil_iff]
  intro leaf hleaf
  simp [Node.leaf?, h leaf hleaf]

theorem leaf?_nodesOf_of_ne {kind : TokenKind} {run : List Leaf}
    (h : ∀ leaf ∈ run, leaf.reading.kind ≠ kind) :
    (nodesOf run).findSome? (Node.leaf? kind) = none := by
  simp only [nodesOf, List.findSome?_map, List.findSome?_eq_none_iff]
  intro leaf hleaf
  simp [Node.leaf?, h leaf hleaf]

/-- The last lines of a description that are blank do not show. -/
theorem description?_descriptionNodes {run : List Leaf}
    (h : ∀ leaf ∈ run, leaf.reading.kind = .other) :
    (descriptionNodes run).findSome? Node.description? = describe (run.map Leaf.text) := by
  cases run with
  | nil => rfl
  | cons first rest =>
      let texts := (first :: rest).map Leaf.text
      let isBlankText : String → Bool := fun text => (Text.trimString text).isEmpty
      have hkept : texts.rdropWhile isBlankText ++ texts.rtakeWhile isBlankText = texts :=
        List.rdropWhile_append_rtakeWhile
      have hblank : ∀ text ∈ texts.rtakeWhile isBlankText, Text.AllBlank text.toList := by
        intro text htext
        have htrim := List.mem_rtakeWhile_imp htext
        simpa [isBlankText, Text.trimString, Text.trim_eq_nil_iff] using htrim
      have htrim := Text.trimString_intercalate_append (texts.rdropWhile isBlankText) hblank
      rw [hkept] at htrim
      have hdescription : description (nodesOf (first :: rest)) =
          "\n".intercalate (texts.rdropWhile isBlankText) := by
        rw [description, leaves_nodesOf h]
        rfl
      have hnode : (Node.description (description (nodesOf (first :: rest)))).description? =
          describe texts := by
        simp only [Node.description?, hdescription, ← htrim, describe]
      rw [descriptionNodes, List.findSome?_cons, hnode]
      cases describe texts with
      | none => rfl
      | some text => rfl

/-! ### Folding -/

theorem title_eq {h : Heading Leaf} (hread : WellRead (linesOf .other h.description))
    (front back : List Node) (hfront : front.findSome? Node.description? = none)
    (hback : back.findSome? Node.description? = none) :
    title h.line (front ++ h.nodes ++ back) = h.title := by
  have hdescription := description?_descriptionNodes (WellRead.linesOf_iff.mp hread)
  simp [title, Heading.title, Heading.nodes, List.findSome?_append, List.findSome?_cons,
    hfront, hback, hdescription, Node.description?]

theorem unevenError?_map_row {first : Leaf} {rest : List Leaf} (h : EvenRows first rest) :
    unevenError? ((first :: rest).map Leaf.row) = none := by
  have hrest : ∀ row ∈ rest.map Leaf.row, row.cells.length = first.row.cells.length := by
    intro row hrow
    obtain ⟨leaf, hleaf, rfl⟩ := List.mem_map.mp hrow
    simp [Leaf.row, h leaf hleaf]
  simp only [List.map_cons, unevenError?, Option.map_eq_none_iff, List.find?_eq_none]
  intro row hrow
  simp [hrest row hrow]

theorem node?_dataTable {first : Leaf} {rest : List Leaf}
    (hread : ∀ leaf ∈ first :: rest, leaf.reading.kind = .tableRow)
    (heven : EvenRows first rest) :
    node? .dataTable (nodesOf (first :: rest)) =
      .ok (some (Argument.table first rest).node) := by
  simp only [node?, rows, leaves_nodesOf hread, DataTable.ofRows, unevenError?_map_row heven]
  rfl

theorem node?_examplesTable {first : Leaf} {rest : List Leaf}
    (hread : ∀ leaf ∈ first :: rest, leaf.reading.kind = .tableRow)
    (heven : EvenRows first rest) :
    node? .examplesTable (nodesOf (first :: rest)) =
      .ok (some (.examplesTable ((first :: rest).map Leaf.row))) := by
  simp only [node?, rows, leaves_nodesOf hread, unevenError?_map_row heven]

theorem node?_docString {opening closing : Leaf} {content : List Leaf}
    (hopening : opening.reading.kind = .docStringSeparator)
    (hcontent : ∀ leaf ∈ content, leaf.reading.kind = .other)
    (hclosing : closing.reading.kind = .docStringSeparator) :
    node? .docString (nodesOf (opening :: content ++ [closing])) =
      .ok (some (Argument.docString opening content closing).node) := by
  have hlines : leaves .other (nodesOf (opening :: content ++ [closing])) = content := by
    have hcons : nodesOf (opening :: content ++ [closing]) =
        nodesOf [opening] ++ nodesOf content ++ nodesOf [closing] := by
      simp [nodesOf]
    rw [hcons, leaves_append, leaves_append, leaves_nodesOf hcontent,
      leaves_nodesOf_of_ne (by simp [hopening]), leaves_nodesOf_of_ne (by simp [hclosing]),
      List.nil_append, List.append_nil]
  have hfirst : leaf? .docStringSeparator (nodesOf (opening :: content ++ [closing])) =
      some opening := by
    simp [leaf?, nodesOf, Node.leaf?, hopening]
  simp only [node?, docString?, hfirst, hlines]
  rfl

theorem argument?_node (a : Argument Leaf) : a.node.argument? = some a.document := by
  cases a <;> rfl

theorem node?_step {s : Tree.Step Leaf} (hline : s.line.reading.kind = .stepLine) :
    node? .step (.token s.line :: (s.argument.map Argument.node).toList) =
      .ok (some (.step s.document)) := by
  obtain ⟨line, argument⟩ := s
  have hfirst : ∀ children, leaf? .stepLine (.token line :: children) = some line := by
    intro children
    simp only [leaf?, List.findSome?_cons, Node.leaf?]
    rw [if_pos hline]
  simp only [node?, step?, hfirst]
  cases argument with
  | none => rfl
  | some a =>
      have harg : (Node.token line :: ((some a).map Argument.node).toList).findSome?
          Node.argument? = some a.document := by
        have htoken : (Node.token line).argument? = none := rfl
        simp [htoken, argument?_node]
      rw [harg]
      rfl

/-- What is neither a token nor a description is not found in a heading. -/
theorem filterMap_headingNodes {β : Type} {f : Node → Option β}
    (htoken : ∀ leaf, f (.token leaf) = none) (htext : ∀ text, f (.description text) = none)
    (h : Heading Leaf) : h.nodes.filterMap f = [] := by
  obtain ⟨line, _ | ⟨first, rest⟩⟩ := h <;>
    simp [Heading.nodes, descriptionNodes, htoken, htext]

theorem leaf?_headingNodes {h : Heading Leaf} {kind : TokenKind}
    (hline : h.line.reading.kind = kind) (back : List Node) :
    leaf? kind (h.nodes ++ back) = some h.line := by
  rw [leaf?, Heading.nodes, List.cons_append, List.findSome?_cons, Node.leaf?, if_pos hline]

theorem findSome?_map_eq_none {β γ : Type} {f : Node → Option β} {g : γ → Node}
    (h : ∀ x, f (g x) = none) (xs : List γ) : (xs.map g).findSome? f = none := by
  simp [h]

theorem steps_nodes (b : Body Leaf) : steps b.nodes = b.steps.map Tree.Step.document := by
  rw [steps, Body.nodes, List.filterMap_append,
    filterMap_headingNodes (fun leaf => rfl) (fun text => rfl), List.nil_append,
    List.filterMap_map]
  exact List.filterMap_eq_map (f := Tree.Step.document) ▸ rfl

theorem title_nodes {b : Body Leaf} {kind : TokenKind} (hread : WellRead (b.lines kind))
    (back : List Node) (hback : back.findSome? Node.description? = none) :
    title b.heading.line (b.nodes ++ back) = b.heading.title := by
  simp only [Body.lines, Heading.lines, WellRead.append_iff, WellRead.cons_iff] at hread
  have hsteps : ((b.steps.map fun s => Node.step s.document) ++ back).findSome?
      Node.description? = none := by
    rw [List.findSome?_append, findSome?_map_eq_none (fun s => rfl), hback]
    rfl
  rw [Body.nodes, List.append_assoc]
  exact title_eq hread.1.2 [] _ rfl hsteps

theorem leaf?_nodes {b : Body Leaf} {kind : TokenKind} (hread : WellRead (b.lines kind))
    (back : List Node) : leaf? kind (b.nodes ++ back) = some b.heading.line := by
  simp only [Body.lines, Heading.lines, WellRead.append_iff, WellRead.cons_iff] at hread
  rw [Body.nodes, List.append_assoc, leaf?_headingNodes hread.1.1]

theorem group?_tagNodes {rule : Rule} (h : rule ≠ .tags) (tags : List Leaf) (back : List Node) :
    group? rule (tagNodes tags ++ back) = group? rule back := by
  cases tags with
  | nil => rfl
  | cons first rest =>
      rw [tagNodes, List.singleton_append, group?, List.findSome?_cons, Node.group?,
        if_neg (Ne.symm h)]
      rfl

theorem tags_eq {ts : List Leaf} (hread : ∀ leaf ∈ ts, leaf.reading.kind = .tagLine)
    (front back : List Node) (hfront : group? .tags front = none)
    (hback : group? .tags back = none) :
    tags (front ++ tagNodes ts ++ back) = ts.flatMap Leaf.tags := by
  rw [group?] at hfront hback
  cases ts with
  | nil => simp [tags, group?, tagNodes, List.findSome?_append, hfront, hback]
  | cons first rest =>
      have hgroup : group? .tags (front ++ tagNodes (first :: rest) ++ back) =
          some (nodesOf (first :: rest)) := by
        simp [group?, tagNodes, List.findSome?_append, hfront, Node.group?]
      rw [tags, hgroup]
      simp only [leaves_nodesOf hread]

theorem node?_background {b : Body Leaf} (hread : WellRead (b.lines .backgroundLine)) :
    node? .background b.nodes = .ok (some (.definition (.background b.background))) := by
  have hleaf := leaf?_nodes hread []
  have htitle := title_nodes hread [] rfl
  rw [List.append_nil] at hleaf htitle
  simp only [node?, background?, hleaf, htitle, steps_nodes, Option.map_some]
  rfl

theorem node?_scenario {ts : List Leaf} {b : Body Leaf}
    (htags : ∀ leaf ∈ ts, leaf.reading.kind = .tagLine)
    (hread : WellRead (b.lines .scenarioLine)) :
    node? .scenarioDefinition (tagNodes ts ++ [.group .scenario b.nodes]) =
      .ok (some (.definition (Tree.Definition.scenario ts b).document)) := by
  have hgroup : group? .scenario (tagNodes ts ++ [.group .scenario b.nodes]) = some b.nodes := by
    rw [group?_tagNodes (by decide)]
    rfl
  have hleaf := leaf?_nodes hread []
  have htitle := title_nodes hread [] rfl
  have htags' := tags_eq htags [] [.group .scenario b.nodes] rfl rfl
  rw [List.append_nil] at hleaf htitle
  rw [List.nil_append] at htags'
  simp only [node?, definition?, hgroup, hleaf, htitle, htags', steps_nodes, Option.map_some]
  rfl

theorem steps_outlineNodes (o : Outline Leaf) :
    steps o.nodes = o.body.steps.map Tree.Step.document := by
  rw [Outline.nodes, steps, List.filterMap_append, ← steps, steps_nodes, List.filterMap_map]
  simp [Node.step?]

theorem examples_outlineNodes (o : Outline Leaf) :
    o.nodes.filterMap Node.examples? = o.examples.map Tree.Examples.document := by
  rw [Outline.nodes, Body.nodes, List.filterMap_append, List.filterMap_append,
    filterMap_headingNodes (fun leaf => rfl) (fun text => rfl), List.filterMap_map,
    List.filterMap_map]
  simp [Function.comp_def, Node.examples?]

theorem node?_outline {o : Outline Leaf} (htags : ∀ leaf ∈ o.tags, leaf.reading.kind = .tagLine)
    (hread : WellRead (o.body.lines .scenarioOutlineLine)) :
    node? .scenarioDefinition (tagNodes o.tags ++ [.group .scenarioOutline o.nodes]) =
      .ok (some (.definition (Tree.Definition.outline o).document)) := by
  have hscenario : group? .scenario
      (tagNodes o.tags ++ [.group .scenarioOutline o.nodes]) = none := by
    rw [group?_tagNodes (by decide)]
    rfl
  have hgroup : group? .scenarioOutline
      (tagNodes o.tags ++ [.group .scenarioOutline o.nodes]) = some o.nodes := by
    rw [group?_tagNodes (by decide)]
    rfl
  have hleaf := leaf?_nodes hread (o.examples.map fun e => .examples e.document)
  have htitle := title_nodes hread (o.examples.map fun e => .examples e.document)
    (findSome?_map_eq_none (fun e => rfl) o.examples)
  have htags' := tags_eq htags [] [.group .scenarioOutline o.nodes] rfl rfl
  rw [← Outline.nodes] at hleaf htitle
  rw [List.nil_append] at htags'
  simp only [node?, definition?, hscenario, hgroup, hleaf, htitle, htags', steps_outlineNodes,
    examples_outlineNodes, Option.map_some, Option.bind_some]
  rfl

theorem node?_examples {e : Tree.Examples Leaf} (hread : WellRead e.lines) :
    node? .examplesDefinition
        (tagNodes e.tags ++ [.group .examples (e.heading.nodes ++ rowNodes e.rows)]) =
      .ok (some (.examples e.document)) := by
  simp only [Tree.Examples.lines, Heading.lines, WellRead.append_iff, WellRead.cons_iff,
    WellRead.linesOf_iff] at hread
  obtain ⟨⟨htags, hline, hdescription⟩, -⟩ := hread
  let inner := e.heading.nodes ++ rowNodes e.rows
  have hgroup : group? .examples (tagNodes e.tags ++ [.group .examples inner]) = some inner := by
    rw [group?_tagNodes (by decide)]
    rfl
  have hleaf := leaf?_headingNodes hline (rowNodes e.rows)
  have hrowsText : (rowNodes e.rows).findSome? Node.description? = none := by
    cases e.rows <;> rfl
  have htitle := title_eq (WellRead.linesOf_iff.mpr hdescription) [] _ rfl hrowsText
  rw [List.nil_append] at htitle
  have hrows : (inner.filterMap Node.rows?).flatten = e.rows.map Leaf.row := by
    rw [List.filterMap_append,
      filterMap_headingNodes (fun leaf => rfl) (fun text => rfl), List.nil_append]
    cases e.rows with
    | nil => rfl
    | cons first rest => simp [rowNodes, Node.rows?]
  have htags' := tags_eq htags [] [.group .examples inner] rfl rfl
  rw [List.nil_append] at htags'
  simp only [inner] at hgroup hrows htags'
  simp only [node?, examples?, hgroup, hleaf, htitle, hrows, htags', Option.map_some,
    Option.bind_some]
  rfl

theorem node?_feature {f : Tree.Feature Leaf} (hread : WellRead f.header.lines) :
    node? .feature f.nodes = .ok (some (.feature f.document)) := by
  simp only [Header.lines, Heading.lines, WellRead.append_iff, WellRead.cons_iff,
    WellRead.linesOf_iff] at hread
  obtain ⟨⟨hlanguage, htags⟩, hline, hdescription⟩ := hread
  have hgroup : group? .featureHeader f.nodes = some f.header.nodes := rfl
  have hgroups : ∀ run, group? .tags (nodesOf run) = none := by
    intro run
    rw [group?, nodesOf, findSome?_map_eq_none fun leaf => rfl]
  have hheadingGroups : group? .tags f.header.heading.nodes = none := by
    rw [Heading.nodes]
    cases f.header.heading.description <;> rfl
  have htags' := tags_eq htags _ _ (hgroups f.header.language.toList) hheadingGroups
  have hlanguageLeaf : leaf? .featureLine (nodesOf f.header.language.toList) = none :=
    leaf?_nodesOf_of_ne fun leaf hleaf => by simp [hlanguage leaf hleaf]
  have htagsLeaf : leaf? .featureLine (tagNodes f.header.tags) = none := by
    cases f.header.tags <;> rfl
  have hleaf : leaf? .featureLine f.header.nodes = some f.header.heading.line := by
    have hheading := leaf?_headingNodes hline []
    rw [leaf?] at hlanguageLeaf htagsLeaf hheading ⊢
    rw [List.append_nil] at hheading
    rw [Header.nodes, List.findSome?_append, List.findSome?_append, hlanguageLeaf, htagsLeaf,
      hheading]
    rfl
  have hfront : (nodesOf f.header.language.toList ++ tagNodes f.header.tags).findSome?
      Node.description? = none := by
    rw [List.findSome?_append, nodesOf, findSome?_map_eq_none fun leaf => rfl]
    cases f.header.tags <;> rfl
  have htitle := title_eq (WellRead.linesOf_iff.mpr hdescription) _ [] hfront rfl
  rw [List.append_nil, ← Header.nodes] at htitle
  rw [← Header.nodes] at htags'
  have hdefinitions : f.nodes.filterMap Node.definition? = f.document.definitions := by
    rw [Feature.nodes, List.filterMap_cons, List.filterMap_map]
    simp [Function.comp_def, Node.definition?]
  simp only [node?, feature?, hgroup, hleaf, htitle, htags', hdefinitions, Option.map_some,
    Option.bind_some]
  rfl

end Fold
end Gherkin
