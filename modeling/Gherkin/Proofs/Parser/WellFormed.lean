import Gherkin.Proofs.Dialect.Keywords
import Gherkin.Proofs.Parser.Conservation
import Gherkin.Proofs.Run.Lines
import Gherkin.Proofs.Text.Words

/-!
# Documents that have been read are well formed

Names, texts and types are trimmed, tables and examples have a first row in
front of the others, and a background is the first definition.  The blocks of a
document stand one below the other: the tags of a block above its title line,
and everything else in it below.
-/

namespace Gherkin

/-- A text without blanks at its ends. -/
def Trimmed (text : String) : Prop :=
  Text.trimString text = text

/-- The lines of a block: those of its tags, that of its title, and those of what it holds. -/
structure Layout where
  tags : List Nat
  title : Nat
  contents : List Nat

namespace Layout

/-- All lines of a block. -/
def lines (l : Layout) : List Nat :=
  l.tags ++ l.title :: l.contents

/-- The tags stand above the title line and the contents below it. -/
structure Ordered (l : Layout) : Prop where
  tags : ∀ n ∈ l.tags, n < l.title
  contents : ∀ n ∈ l.contents, l.title < n

/-- A block stands above another one with all of its lines. -/
def Above (l l' : Layout) : Prop :=
  ∀ n ∈ l.lines, ∀ n' ∈ l'.lines, n < n'

end Layout

/-- The name is trimmed, and so is the description, which is not empty. -/
structure Title.WellFormed (t : Title) : Prop where
  name : Trimmed t.name
  description : ∀ text ∈ t.description, text ≠ "" ∧ Trimmed text

/-- A table stands where its first row stands, and the type of a doc string is trimmed and not
empty. -/
def StepArgument.WellFormed : StepArgument → Prop
  | dataTable table => ∃ row ∈ table.rows.head?, table.location = row.location
  | docString d => ∀ type ∈ d.contentType, type ≠ "" ∧ Trimmed type

structure Step.WellFormed (s : Step) : Prop where
  text : Trimmed s.text
  argument : ∀ a ∈ s.argument, a.WellFormed

namespace Examples

/-- The rows, the header first. -/
def rows (e : Examples) : List TableRow :=
  e.header.toList ++ e.body

/-- The lines of examples. -/
def layout (e : Examples) : Layout where
  tags := e.tags.map fun tag => tag.location.line
  title := e.location.line
  contents := e.rows.map fun row => row.location.line

/-- There are no rows without a header, and the rows stand one below the other. -/
structure WellFormed (e : Examples) : Prop where
  tags : ∀ tag ∈ e.tags, Trimmed tag.name
  title : e.toTitle.WellFormed
  header : e.header = none → e.body = []
  layout : e.layout.Ordered
  rows : e.layout.contents.Pairwise (· < ·)

end Examples

namespace Definition

/-- The examples of an outline. -/
def examples : Definition → List Examples
  | outline o => o.examples
  | _ => []

/-- The lines of a definition, which holds its steps with what stands below them, and its
examples. -/
def layout (d : Definition) : Layout where
  tags := d.tags.map fun tag => tag.location.line
  title := d.title.location.line
  contents := (d.steps.flatMap Step.visits).map Visit.line ++
    d.examples.flatMap fun e => e.layout.lines

/-- The examples of an outline stand one below the other, and below its steps. -/
structure WellFormed (d : Definition) : Prop where
  tags : ∀ tag ∈ d.tags, Trimmed tag.name
  title : d.title.WellFormed
  steps : ∀ s ∈ d.steps, s.WellFormed
  examples : ∀ e ∈ d.examples, e.WellFormed
  layout : d.layout.Ordered
  below : ∀ e ∈ d.examples, ∀ v ∈ d.steps.flatMap Step.visits, ∀ n ∈ e.layout.lines, v.line < n
  siblings : d.examples.Pairwise fun e e' => e.layout.Above e'.layout

end Definition

/-- Only the first definition may be a background, and the definitions stand one below the
other. -/
structure Feature.WellFormed (f : Feature) : Prop where
  tags : ∀ tag ∈ f.tags, Trimmed tag.name
  title : f.toTitle.WellFormed
  background : ∀ d ∈ f.definitions.tail, d.background? = none
  definitions : ∀ d ∈ f.definitions, d.WellFormed
  siblings : f.definitions.Pairwise fun d d' => d.layout.Above d'.layout

/-! ### Layouts and walks -/

theorem Examples.layout_eq (e : Examples) :
    e.layout = ⟨e.tags.map fun tag => tag.location.line, e.location.line,
      (e.header.toList.map Visit.row ++ e.body.map Visit.row).map Visit.line⟩ := by
  simp [layout, rows, Visit.line, Visit.location, Function.comp_def]

theorem Examples.lines_layout (e : Examples) : e.layout.lines = e.visits.map Visit.line := by
  simp [layout, Layout.lines, rows, visits, Visit.line, Visit.location, Function.comp_def]

theorem Definition.layout_eq (d : Definition) :
    d.layout = ⟨d.tags.map fun tag => tag.location.line, d.title.location.line,
      (d.steps.flatMap Step.visits ++ d.examples.flatMap Examples.visits).map Visit.line⟩ := by
  simp only [layout, Examples.lines_layout, List.map_append, List.map_flatMap]

theorem Layout.ordered_of_pairwise {tags : List Tag} {kind : TokenKind} {title : Title}
    {contents : List Visit}
    (h : (tags.map Visit.tag ++ Visit.title kind title :: contents).Pairwise Visit.Precedes) :
    Ordered ⟨tags.map fun tag => tag.location.line, title.location.line,
      contents.map Visit.line⟩ := by
  rw [List.pairwise_append, List.pairwise_cons] at h
  obtain ⟨-, ⟨hcontents, -⟩, htags⟩ := h
  constructor
  · intro n hn
    obtain ⟨tag, htag, rfl⟩ := List.mem_map.mp hn
    have hprecedes := htags (.tag tag) (List.mem_map_of_mem htag) _ List.mem_cons_self
    rcases hprecedes with hline | ⟨-, -, hnot⟩
    · exact hline
    · cases hnot
  · intro n hn
    obtain ⟨v, hv, rfl⟩ := List.mem_map.mp hn
    rcases hcontents v hv with hline | ⟨-, hnot, -⟩
    · exact hline
    · cases hnot

theorem trimmed_ofList_trim (cs : List Char) : Trimmed (String.ofList (Text.trim cs)) := by
  rw [Trimmed, Text.trimString, String.toList_ofList, Text.trim_trim]

theorem trimmed_empty : Trimmed "" :=
  rfl

/-- A description is trimmed, and there is none when nothing is left. -/
theorem wellFormed_describe (texts : List String) :
    ∀ text ∈ describe texts, text ≠ "" ∧ Trimmed text := by
  intro text htext
  rw [describe, Option.mem_def] at htext
  split at htext
  · cases htext
  · next hempty =>
      obtain rfl := Option.some.inj htext
      exact ⟨by simpa using hempty, Text.trimString_trimString _⟩

/-! ### The parts of a tree -/

/-- The kinds of lines that carry a text behind their start. -/
def TokenKind.carriesText (kind : TokenKind) : Bool :=
  kind.category?.isSome || kind = docStringSeparator

namespace Tree

variable {l l' : List (TokenKind × Leaf)}

/-- The lines come in the order of the source, and what they carry is trimmed. -/
structure WellLaid (l : List (TokenKind × Leaf)) : Prop where
  ascending : l.Pairwise fun x y => x.2.line < y.2.line
  trimmed : ∀ x ∈ l, x.1.carriesText = true → Trimmed x.2.text
  tags : ∀ x ∈ l, x.1 = .tagLine → ∀ tag ∈ x.2.tags, Trimmed tag.name

theorem WellLaid.sublist (h : WellLaid l) (hsub : l'.Sublist l) : WellLaid l' :=
  ⟨h.ascending.sublist hsub, fun x hx => h.trimmed x (hsub.subset hx),
    fun x hx => h.tags x (hsub.subset hx)⟩

theorem WellLaid.trimmed_tags {lines : List Leaf} (h : WellLaid (linesOf .tagLine lines)) :
    ∀ tag ∈ lines.flatMap Leaf.tags, Trimmed tag.name := by
  intro tag htag
  obtain ⟨line, hline, hmem⟩ := List.mem_flatMap.mp htag
  exact h.tags (.tagLine, line) (List.mem_map_of_mem hline) rfl tag hmem

theorem WellLaid.append (h : WellLaid (l ++ l')) :
    WellLaid l ∧ WellLaid l' ∧ ∀ x ∈ l, ∀ y ∈ l', x.2.line < y.2.line :=
  ⟨h.sublist (List.sublist_append_left l l'), h.sublist (List.sublist_append_right l l'),
    (List.pairwise_append.mp h.ascending).2.2⟩

theorem WellLaid.flatMap {β : Type} {parts : List β} {f : β → List (TokenKind × Leaf)}
    (h : WellLaid (parts.flatMap f)) :
    (∀ part ∈ parts, WellLaid (f part)) ∧
      parts.Pairwise fun part part' => ∀ x ∈ f part, ∀ y ∈ f part', x.2.line < y.2.line := by
  constructor
  · intro part hpart
    exact h.sublist (List.sublist_flatten_of_mem (List.mem_map_of_mem hpart))
  · exact (List.pairwise_flatMap.mp h.ascending).2

/-- The nodes of lines stand above those of the lines that follow. -/
theorem lt_of_mem_visits (h : ∀ x ∈ l, ∀ y ∈ l', x.2.line < y.2.line) {inside inside' : Bool}
    {n n' : Nat} (hn : n ∈ (visits inside l).map Visit.line)
    (hn' : n' ∈ (visits inside' l').map Visit.line) : n < n' := by
  obtain ⟨v, hv, rfl⟩ := List.mem_map.mp hn
  obtain ⟨w, hw, rfl⟩ := List.mem_map.mp hn'
  obtain ⟨x, hx, hxv⟩ := List.mem_map.mp (line_mem_of_mem_visits hv)
  obtain ⟨y, hy, hyw⟩ := List.mem_map.mp (line_mem_of_mem_visits hw)
  rw [← hxv, ← hyw]
  exact h x hx y hy

theorem Heading.wellFormed (h : Heading Leaf) {kind : TokenKind}
    (hkind : kind.carriesText = true) (hlaid : WellLaid (h.lines kind)) :
    h.title.WellFormed := by
  constructor
  · simpa only [title] using hlaid.trimmed (kind, h.line) List.mem_cons_self hkind
  · simpa only [title] using wellFormed_describe (h.description.map Leaf.text)

theorem Argument.wellFormed (a : Argument Leaf) (hlaid : WellLaid a.lines) :
    a.document.WellFormed := by
  cases a with
  | table first rest => exact ⟨first.row, rfl, rfl⟩
  | docString opening content closing =>
      have htrimmed := hlaid.trimmed (.docStringSeparator, opening) List.mem_cons_self rfl
      intro type htype
      change type ∈ (if opening.text.isEmpty then none else some opening.text) at htype
      split at htype
      · cases htype
      · next hempty =>
          obtain rfl := Option.some.inj htype
          exact ⟨by simpa using hempty, htrimmed⟩

theorem Step.wellFormed (s : Step Leaf) (hlaid : WellLaid s.lines) : s.document.WellFormed := by
  have htext := hlaid.trimmed (.stepLine, s.line) List.mem_cons_self rfl
  have hargument : ∀ argument ∈ s.argument.map Argument.document, argument.WellFormed := by
    intro argument hargument
    obtain ⟨a, ha, rfl⟩ := Option.map_eq_some_iff.mp hargument
    apply a.wellFormed
    rw [lines, ha] at hlaid
    exact hlaid.sublist (List.sublist_cons_self _ _)
  rw [document]
  exact ⟨htext, hargument⟩

theorem Examples.visits_lines (e : Examples Leaf) : visits false e.lines = e.document.visits := by
  have hvisits := visits_examples (l := []) e fun x hx => by cases hx
  simpa [visits] using hvisits

theorem Examples.rows_document (e : Examples Leaf) :
    e.document.rows = e.rows.map Leaf.row := by
  obtain ⟨tags, heading, _ | ⟨first, rest⟩⟩ := e
  · rfl
  · rfl

theorem Examples.wellFormed (e : Examples Leaf) (hlaid : WellLaid e.lines) :
    e.document.WellFormed := by
  have hwalk : (visits false e.lines).Pairwise Visit.Precedes :=
    visits_pairwise (List.pairwise_map.mpr hlaid.ascending)
  rw [e.visits_lines, Gherkin.Examples.visits] at hwalk
  have hordered := Layout.ordered_of_pairwise hwalk
  rw [← Gherkin.Examples.layout_eq] at hordered
  rw [lines] at hlaid
  obtain ⟨hfront, hrows, -⟩ := hlaid.append
  obtain ⟨htags, hheading, -⟩ := hfront.append
  refine ⟨htags.trimmed_tags, e.heading.wellFormed rfl hheading, ?_, hordered, ?_⟩
  · intro hnone
    change (e.rows.map Leaf.row).head? = none at hnone
    change (e.rows.map Leaf.row).tail = []
    rw [List.head?_eq_none_iff.mp hnone]
    rfl
  · have hascending := hrows.ascending
    rw [linesOf, List.pairwise_map] at hascending
    rw [Gherkin.Examples.layout, rows_document, List.map_map, List.pairwise_map]
    exact hascending

theorem endsText_nil : EndsText [] :=
  fun x hx => by cases hx

/-- The lines of a block with tags in front of it and examples behind it. -/
def blockLines (tags : List Leaf) (kind : TokenKind) (b : Body Leaf)
    (examples : List (Examples Leaf)) : List (TokenKind × Leaf) :=
  linesOf .tagLine tags ++ b.lines kind ++ examples.flatMap Examples.lines

/-- A definition is what a block makes with the tags in front of it and the examples behind it. -/
structure Makes (tags : List Leaf) (b : Body Leaf) (examples : List (Examples Leaf))
    (d : Gherkin.Definition) : Prop where
  tags : d.tags = tags.flatMap Leaf.tags
  title : d.title = b.heading.title
  steps : d.steps = b.steps.map Step.document
  examples : d.examples = examples.map Examples.document

namespace Makes

variable {tags : List Leaf} {b : Body Leaf} {examples : List (Examples Leaf)}
  {d : Gherkin.Definition} {kind : TokenKind} (h : Makes tags b examples d)
  (hkind : kind ∈ [.featureLine, .backgroundLine, .scenarioLine, .scenarioOutlineLine,
    .examplesLine])

include h hkind

theorem visits_eq : visits false (blockLines tags kind b examples) =
    d.tags.map .tag ++ .title kind d.title ::
      (d.steps.flatMap Gherkin.Step.visits ++ d.examples.flatMap Gherkin.Examples.visits) := by
  have hends := endsText_nil.examples examples
  have hexamples := visits_allExamples examples endsText_nil
  rw [List.append_nil] at hends
  rw [List.append_nil, visits, List.append_nil] at hexamples
  rw [blockLines, List.append_assoc, visits_tags, visits_body b hends hkind, hexamples, h.tags,
    h.title, h.steps, h.examples]

theorem lines_layout : d.layout.lines =
    (visits false (blockLines tags kind b examples)).map Visit.line := by
  rw [h.visits_eq hkind, Gherkin.Definition.layout_eq, Layout.lines]
  simp [Visit.line, Visit.location, Function.comp_def]

theorem wellFormed (htext : kind.carriesText = true)
    (hlaid : WellLaid (blockLines tags kind b examples)) : d.WellFormed := by
  have hwalk : (visits false (blockLines tags kind b examples)).Pairwise Visit.Precedes :=
    visits_pairwise (List.pairwise_map.mpr hlaid.ascending)
  rw [h.visits_eq hkind] at hwalk
  have hordered := Layout.ordered_of_pairwise hwalk
  rw [← Gherkin.Definition.layout_eq] at hordered
  obtain ⟨hblock, hexampleLines, habove⟩ := hlaid.append
  obtain ⟨htags, hbody, -⟩ := hblock.append
  obtain ⟨hheading, hstepLines, -⟩ := hbody.append
  obtain ⟨hexamples, hsiblings⟩ := hexampleLines.flatMap
  constructor
  case tags =>
    rw [h.tags]
    exact htags.trimmed_tags
  case title =>
    rw [h.title]
    exact b.heading.wellFormed htext hheading
  case steps =>
    rw [h.steps]
    intro s hs
    obtain ⟨step, hstep, rfl⟩ := List.mem_map.mp hs
    exact step.wellFormed (hstepLines.flatMap.1 step hstep)
  case examples =>
    rw [h.examples]
    intro e he
    obtain ⟨part, hpart, rfl⟩ := List.mem_map.mp he
    exact part.wellFormed (hexamples part hpart)
  case layout => exact hordered
  case below =>
    rw [h.examples, h.steps]
    intro e he v hv n hn
    obtain ⟨part, hpart, rfl⟩ := List.mem_map.mp he
    have hsteps := visits_steps b.steps []
    rw [List.append_nil, visits, List.append_nil] at hsteps
    rw [Gherkin.Examples.lines_layout, ← part.visits_lines] at hn
    rw [← hsteps] at hv
    refine lt_of_mem_visits (fun x hx y hy => ?_) (List.mem_map_of_mem hv) hn
    refine habove x ?_ y (List.mem_flatMap.mpr ⟨part, hpart, hy⟩)
    exact List.mem_append_right _ (List.mem_append_right _ hx)
  case siblings =>
    rw [h.examples, List.pairwise_map]
    refine hsiblings.imp fun {part part'} hlt n hn n' hn' => ?_
    rw [Gherkin.Examples.lines_layout, ← Examples.visits_lines] at hn hn'
    exact lt_of_mem_visits hlt hn hn'

end Makes

/-! ### Definitions and features -/

/-- What is known of a definition that is read from lines. -/
structure Covers (l : List (TokenKind × Leaf)) (d : Gherkin.Definition) : Prop where
  wellFormed : WellLaid l → d.WellFormed
  lines : d.layout.lines = (visits false l).map Visit.line

theorem Makes.covers {tags : List Leaf} {b : Body Leaf} {examples : List (Examples Leaf)}
    {d : Gherkin.Definition} {kind : TokenKind} (h : Makes tags b examples d)
    (hkind : kind ∈ [.featureLine, .backgroundLine, .scenarioLine, .scenarioOutlineLine,
      .examplesLine]) (htext : kind.carriesText = true) :
    Covers (blockLines tags kind b examples) d :=
  ⟨h.wellFormed hkind htext, h.lines_layout hkind⟩

theorem Body.covers (b : Body Leaf) :
    Covers (b.lines .backgroundLine) (.background b.background) := by
  have hmakes : Makes [] b [] (.background b.background) := ⟨rfl, rfl, rfl, rfl⟩
  have hcovers : Covers (blockLines [] .backgroundLine b []) (.background b.background) :=
    hmakes.covers (by simp) rfl
  rwa [blockLines, List.flatMap_nil, List.append_nil] at hcovers

theorem Definition.covers (d : Definition Leaf) : Covers d.lines d.document := by
  cases d with
  | scenario tags b =>
      have hmakes : Makes tags b [] (scenario tags b).document := ⟨rfl, rfl, rfl, rfl⟩
      have hcovers : Covers (blockLines tags .scenarioLine b []) (scenario tags b).document :=
        hmakes.covers (by simp) rfl
      rwa [blockLines, List.flatMap_nil, List.append_nil] at hcovers
  | outline o =>
      have hmakes : Makes o.tags o.body o.examples (outline o).document := ⟨rfl, rfl, rfl, rfl⟩
      exact hmakes.covers (by simp) rfl

theorem Covers.above {d d' : Gherkin.Definition} (h : Covers l d) (h' : Covers l' d')
    (hlt : ∀ x ∈ l, ∀ y ∈ l', x.2.line < y.2.line) : d.layout.Above d'.layout := by
  intro n hn n' hn'
  rw [h.lines] at hn
  rw [h'.lines] at hn'
  exact lt_of_mem_visits hlt hn hn'

/-- Behind the first definition there are only those of scenarios and outlines. -/
theorem Feature.mem_of_mem_tail (f : Feature Leaf) {d : Gherkin.Definition}
    (h : d ∈ f.document.definitions.tail) : d ∈ f.definitions.map Definition.document := by
  rw [document] at h
  cases hbackground : f.background with
  | none =>
      rw [hbackground] at h
      exact List.mem_of_mem_tail h
  | some b =>
      rw [hbackground] at h
      exact h

theorem Feature.background_of_mem (f : Feature Leaf) {d : Gherkin.Definition}
    (h : d ∈ (f.background.map fun b => Gherkin.Definition.background b.background).toList) :
    ∃ b, f.background = some b ∧ d = .background b.background := by
  obtain ⟨b, hb, rfl⟩ := Option.map_eq_some_iff.mp (Option.mem_toList.mp h)
  exact ⟨b, hb, rfl⟩

theorem Feature.wellFormed (f : Feature Leaf) (hlaid : WellLaid f.lines) :
    f.document.WellFormed := by
  obtain ⟨hfront, hdefinitionLines, habove⟩ := hlaid.append
  obtain ⟨hheader, hbackground, -⟩ := hfront.append
  obtain ⟨hlines, hheading, -⟩ := hheader.append
  obtain ⟨hdefinitions, hsiblings⟩ := hdefinitionLines.flatMap
  constructor
  case tags => exact hlines.append.2.1.trimmed_tags
  case title => exact f.header.heading.wellFormed rfl hheading
  case background =>
    intro d hd
    obtain ⟨part, -, rfl⟩ := List.mem_map.mp (f.mem_of_mem_tail hd)
    cases part with
    | scenario | outline => rfl
  case definitions =>
    intro d hd
    rcases List.mem_append.mp hd with hd | hd
    · obtain ⟨b, hb, rfl⟩ := f.background_of_mem hd
      rw [hb] at hbackground
      exact b.covers.wellFormed hbackground
    · obtain ⟨part, hpart, rfl⟩ := List.mem_map.mp hd
      exact part.covers.wellFormed (hdefinitions part hpart)
  case siblings =>
    refine List.pairwise_append.mpr ⟨?_, ?_, ?_⟩
    · cases f.background with
      | none => exact List.Pairwise.nil
      | some b => exact List.pairwise_singleton _ _
    · rw [List.pairwise_map]
      exact hsiblings.imp fun {part part'} hlt => part.covers.above part'.covers hlt
    · intro d hd d' hd'
      obtain ⟨b, hb, rfl⟩ := f.background_of_mem hd
      obtain ⟨part, hpart, rfl⟩ := List.mem_map.mp hd'
      refine b.covers.above part.covers fun x hx y hy => ?_
      refine habove x ?_ y (List.mem_flatMap.mpr ⟨part, hpart, hy⟩)
      rw [hb]
      exact List.mem_append_right _ hx

end Tree

/-! ### What has been read -/

namespace Matcher

variable {m : Matcher} {l : Line} {kind : TokenKind} {content : Content}

theorem trimmed_of_separator? (h : m.separator? l = some content) :
    Trimmed (content.text.getD "") := by
  rw [separator?] at h
  split at h
  · split at h
    · obtain rfl := Option.some.inj h
      exact trimmed_empty
    · cases h
  · obtain ⟨separator, -, hrest⟩ := Option.bind_eq_some_iff.mp h
    obtain ⟨type, htype, rfl⟩ := Option.map_eq_some_iff.mp hrest
    obtain ⟨rest, -, rfl⟩ := Option.map_eq_some_iff.mp htype
    exact trimmed_ofList_trim rest

/-- What stands behind the start of a line is read without blanks at its ends. -/
theorem trimmed_of_lineContent? (hkind : kind.carriesText = true)
    (h : m.lineContent? kind l = some content) : Trimmed (content.text.getD "") := by
  by_cases hseparator : kind = .docStringSeparator
  · rw [hseparator] at h
    exact trimmed_of_separator? h
  · obtain ⟨category, hcategory⟩ : ∃ category, kind.category? = some category := by
      simpa [TokenKind.carriesText, hseparator, Option.isSome_iff_exists] using hkind
    obtain ⟨keyword, -, hfollows⟩ := exists_keyword_of_lineContent? hcategory h
    obtain ⟨rest, -, htext⟩ := hfollows.text
    rw [htext]
    exact trimmed_ofList_trim rest

/-- There is no blank in a word of a tag line. -/
theorem trimmed_of_tagLine (h : m.lineContent? .tagLine l = some content) :
    ∀ item ∈ content.items, Trimmed item.text := by
  intro word hword
  rw [items_of_tagLine h] at hword
  obtain ⟨n, -, front, back, -, -, -, hword, -⟩ := Line.mem_words_iff.mp hword
  rw [Trimmed, Text.trimString, Text.trim_of_forall_not_blank hword, String.ofList_toList]

end Matcher

namespace Parser

variable {p : Parser} {document : Document}

/-- A source that a document has been read from is made of lines. -/
theorem exists_lines_of_parse {source : Source} (h : p.parse source = .ok document) :
    ∃ lines, source = .ofLines lines := by
  obtain ⟨start, hstart, houtcome⟩ := exists_run_of_parse h
  have hfine := (Reader.of_outcome_eq_ok (r := start.complete.reader) houtcome).2.1
  exact exists_lines_of_complete hstart hfine

theorem wellLaid_leavesOf {lines : List (List Char)}
    (h : (p.accepted (.ofLines lines)).map Token.fresh = Source.tokens 0 (.ofLines lines)) :
    Tree.WellLaid (leavesOf [] (p.accepted (.ofLines lines))) := by
  constructor
  case ascending =>
    exact List.pairwise_map.mp ((numbers_accepted h).sublist (line_sublist_leavesOf [] _))
  case trimmed =>
    intro x hx hkind
    have heof : x.1 ≠ .eof := by
      intro heof
      rw [heof] at hkind
      cases hkind
    obtain ⟨m, l, hcontent⟩ := exists_content_of_mem_leavesOf hx heof
    exact Matcher.trimmed_of_lineContent? hkind hcontent
  case tags =>
    intro x hx hkind tag htag
    obtain ⟨m, l, hcontent⟩ := exists_content_of_mem_leavesOf hx (by simp [hkind])
    rw [hkind] at hcontent
    obtain ⟨item, hitem, rfl⟩ := List.mem_map.mp htag
    exact Matcher.trimmed_of_tagLine hcontent item hitem

/-- The feature of a document that has been read is well formed. -/
theorem feature_wellFormed {source : Source} (h : p.parse source = .ok document) :
    ∀ feature ∈ document.feature, feature.WellFormed := by
  obtain ⟨lines, rfl⟩ := exists_lines_of_parse h
  obtain ⟨tree, rfl, hlines, htokens⟩ := exists_tree h
  intro feature hfeature
  obtain ⟨f, rfl, rfl⟩ := Option.map_eq_some_iff.mp hfeature
  apply f.wellFormed
  have hlaid := wellLaid_leavesOf htokens
  rw [← hlines] at hlaid
  exact hlaid

/-- A feature with a background, a doc string and an outline whose examples have tags. -/
theorem feature_wellFormed_outline :
    let lines := ["@a", "Feature: f ", "  ", "  d", "Background:", "Given s", "\"\"\" t ", "v",
      "\"\"\"", "@b", "Scenario Outline: o", "When t", "|x|", "@c @d", "@e", "Examples: e", "|y|",
      "|1|"].map String.toList
    ∃ document feature, parse {} (.ofLines lines) = .ok document ∧
      document.feature = some feature ∧ feature.WellFormed := by
  intro lines
  have hok : (parse {} (.ofLines lines)).toOption.any (fun document =>
      document.feature.isSome) = true := by
    decide +kernel
  obtain ⟨document, hparse, hsome⟩ := exists_ok_of_any hok
  obtain ⟨feature, hfeature⟩ := Option.isSome_iff_exists.mp hsome
  exact ⟨document, feature, hparse, hfeature, feature_wellFormed hparse feature hfeature⟩

end Parser
end Gherkin
