import Gherkin.Proofs.Tree.Document

/-!
# Walking through a document

A walk visits the nodes of a document in the order of their lines.  The document
of a syntax tree is walked through as its lines are listed: every line but free
text, pragmas and the ends of doc strings is visited, and a node holds the free
text that follows its line.
-/

namespace Gherkin

/-- A node of a document, without the nodes inside it. -/
inductive Visit where
  | tag (tag : Tag)
  /-- A title line of the given kind, with its description. -/
  | title (kind : TokenKind) (title : Title)
  /-- A step without its argument. -/
  | step (location : Location) (comments : List Comment) (keyword text : String)
  | row (row : TableRow)
  | docString (docString : DocString)

namespace Visit

/-- The place of a node. -/
def location : Visit → Location
  | tag t => t.location
  | title _ t => t.location
  | step location _ _ _ => location
  | row r => r.location
  | docString d => d.location

/-- The line of a node. -/
def line (v : Visit) : Nat :=
  v.location.line

/-- Several tags may stand on one line. -/
def isTag : Visit → Bool
  | tag _ => true
  | _ => false

end Visit

/-! ### Walks -/

/-- The rows of a table, or the doc string. -/
def StepArgument.visits : StepArgument → List Visit
  | dataTable table => table.rows.map .row
  | docString d => [.docString d]

/-- A step and what stands below it. -/
def Step.visits (s : Step) : List Visit :=
  .step s.location s.comments s.keyword s.text :: s.argument.elim [] StepArgument.visits

/-- The tags, the title line and the rows of examples. -/
def Examples.visits (e : Examples) : List Visit :=
  e.tags.map .tag ++ .title .examplesLine e.toTitle ::
    (e.header.toList.map .row ++ e.body.map .row)

/-- The tags, the title line, the steps and the examples of a definition. -/
def Definition.visits : Definition → List Visit
  | background b => .title .backgroundLine b.toTitle :: b.steps.flatMap Step.visits
  | scenario s =>
    s.tags.map .tag ++ .title .scenarioLine s.toTitle :: s.steps.flatMap Step.visits
  | outline o =>
    o.tags.map .tag ++ .title .scenarioOutlineLine o.toTitle ::
      (o.steps.flatMap Step.visits ++ o.examples.flatMap Examples.visits)

/-- The tags, the title line and the definitions of a feature. -/
def Feature.visits (f : Feature) : List Visit :=
  f.tags.map .tag ++ .title .featureLine f.toTitle :: f.definitions.flatMap Definition.visits

/-- The nodes of a document in order. -/
def Document.walk (d : Document) : List Visit :=
  d.feature.elim [] Feature.visits

namespace Tree

/-- The texts of the lines of free text that a list starts with. -/
def textsAhead (l : List (TokenKind × Leaf)) : List String :=
  (l.takeWhile fun x => x.1 = .other).map fun x => x.2.text

/-- The doc string that a separator opens in front of other lines. -/
def docStringOf (opening : Leaf) (l : List (TokenKind × Leaf)) : DocString where
  location := opening.location
  contentType := if opening.text.isEmpty then none else some opening.text
  content := "\n".intercalate (textsAhead l)

/-- The title of a title line in front of other lines. -/
def titleOf (line : Leaf) (l : List (TokenKind × Leaf)) : Title where
  location := line.location
  comments := line.comments
  keyword := line.keyword
  name := line.text
  description := describe (textsAhead l)

/-- The nodes that a line stands for in front of other lines, where `inside` says
whether a doc string is open. -/
def visitsAt (inside : Bool) (kind : TokenKind) (leaf : Leaf) (l : List (TokenKind × Leaf)) :
    List Visit :=
  match kind with
  | .tagLine => leaf.tags.map .tag
  | .stepLine => [.step leaf.location leaf.comments leaf.keyword leaf.text]
  | .tableRow => [.row leaf.row]
  | .docStringSeparator => if inside then [] else [.docString (docStringOf leaf l)]
  | .featureLine | .backgroundLine | .scenarioLine | .scenarioOutlineLine | .examplesLine =>
    [.title kind (titleOf leaf l)]
  | .eof | .empty | .comment | .language | .other => []

/-- Whether a doc string is open behind a line. -/
def insideBehind (inside : Bool) (kind : TokenKind) : Bool :=
  if kind = .docStringSeparator then !inside else inside

/-- The nodes that lines stand for. -/
def visits (inside : Bool) : List (TokenKind × Leaf) → List Visit
  | [] => []
  | (kind, leaf) :: l => visitsAt inside kind leaf l ++ visits (insideBehind inside kind) l

/-- A node stands for one of the lines. -/
theorem exists_line_of_mem_visits {v : Visit} {inside : Bool} {l : List (TokenKind × Leaf)}
    (h : v ∈ visits inside l) :
    ∃ kind leaf inside' back, (kind, leaf) ∈ l ∧ v ∈ visitsAt inside' kind leaf back := by
  induction l generalizing inside with
  | nil => exact absurd h List.not_mem_nil
  | cons x l ih =>
      rcases List.mem_append.mp h with h | h
      · exact ⟨x.1, x.2, inside, l, List.mem_cons_self, h⟩
      · obtain ⟨kind, leaf, inside', back, hmem, hv⟩ := ih h
        exact ⟨kind, leaf, inside', back, List.mem_cons_of_mem _ hmem, hv⟩

/-! ### Runs of lines -/

variable {inside : Bool} {l : List (TokenKind × Leaf)}

theorem visits_tags (tags : List Leaf) (l : List (TokenKind × Leaf)) :
    visits inside (linesOf .tagLine tags ++ l) =
      (tags.flatMap Leaf.tags).map .tag ++ visits inside l := by
  induction tags with
  | nil => rfl
  | cons tag tags ih =>
      rw [linesOf_cons, List.cons_append, visits, insideBehind, if_neg (by decide), ih,
        List.flatMap_cons, List.map_append, List.append_assoc]
      rfl

theorem visits_rows (rows : List Leaf) (l : List (TokenKind × Leaf)) :
    visits inside (linesOf .tableRow rows ++ l) =
      (rows.map Leaf.row).map .row ++ visits inside l := by
  induction rows with
  | nil => rfl
  | cons row rows ih =>
      rw [linesOf_cons, List.cons_append, visits, insideBehind, if_neg (by decide), ih]
      rfl

theorem visits_others (run : List Leaf) (l : List (TokenKind × Leaf)) :
    visits inside (linesOf .other run ++ l) = visits inside l := by
  induction run with
  | nil => rfl
  | cons leaf run ih => exact ih

/-- The first line, if there is one, is of a kind with the given property. -/
def Starts (P : TokenKind → Prop) (l : List (TokenKind × Leaf)) : Prop :=
  ∀ x ∈ l.head?, P x.1

namespace Starts

variable {P : TokenKind → Prop}

theorem cons {kind : TokenKind} (hkind : P kind) (leaf : Leaf) (l : List (TokenKind × Leaf)) :
    Starts P ((kind, leaf) :: l) := by
  rintro x hx
  obtain rfl := Option.some.inj hx
  exact hkind

theorem steps (hstep : P .stepLine) (steps : List (Step Leaf)) (h : Starts P l) :
    Starts P (steps.flatMap Step.lines ++ l) := by
  cases steps with
  | nil => exact h
  | cons s steps => exact cons hstep _ _

/-- Lines that may have tags in front of them. -/
theorem tags (htag : P .tagLine) (tags : List Leaf) (h : Starts P l) :
    Starts P (linesOf .tagLine tags ++ l) := by
  cases tags with
  | nil => exact h
  | cons tag tags => exact cons htag _ _

theorem rows (hrow : P .tableRow) (rows : List Leaf) (h : Starts P l) :
    Starts P (linesOf .tableRow rows ++ l) := by
  cases rows with
  | nil => exact h
  | cons row rows => exact cons hrow _ _

theorem examples (htag : P .tagLine) (htitle : P .examplesLine) (examples : List (Examples Leaf))
    (h : Starts P l) : Starts P (examples.flatMap Examples.lines ++ l) := by
  cases examples with
  | nil => exact h
  | cons e examples =>
      rw [List.flatMap_cons, Examples.lines, Heading.lines]
      simp only [List.append_assoc, List.cons_append]
      exact tags htag e.tags (cons htitle _ _)

theorem definitions (htag : P .tagLine) (hscenario : P .scenarioLine)
    (houtline : P .scenarioOutlineLine) (definitions : List (Definition Leaf))
    (h : Starts P l) : Starts P (definitions.flatMap Definition.lines ++ l) := by
  cases definitions with
  | nil => exact h
  | cons d definitions =>
      cases d with
      | scenario ts b =>
          rw [List.flatMap_cons, Definition.lines, Body.lines, Heading.lines]
          simp only [List.append_assoc, List.cons_append]
          exact tags htag ts (cons hscenario _ _)
      | outline o =>
          rw [List.flatMap_cons, Definition.lines, Outline.lines, Body.lines, Heading.lines]
          simp only [List.append_assoc, List.cons_append]
          exact tags htag o.tags (cons houtline _ _)

end Starts

/-- The lines do not go on with free text. -/
def EndsText (l : List (TokenKind × Leaf)) : Prop :=
  ∀ x ∈ l.head?, x.1 ≠ .other

theorem EndsText.cons {kind : TokenKind} (hkind : kind ≠ .other) (leaf : Leaf)
    (l : List (TokenKind × Leaf)) : EndsText ((kind, leaf) :: l) :=
  Starts.cons (P := (· ≠ .other)) hkind leaf l

theorem textsAhead_others (run : List Leaf) (h : EndsText l) :
    textsAhead (linesOf .other run ++ l) = run.map Leaf.text := by
  induction run with
  | nil =>
      cases l with
      | nil => rfl
      | cons x l =>
          have hx : x.1 ≠ .other := h x rfl
          simp [textsAhead, hx]
  | cons leaf run ih => exact congrArg (leaf.text :: ·) ih

/-- A heading is visited with its whole description. -/
theorem visits_heading (heading : Heading Leaf) (h : EndsText l) {kind : TokenKind}
    (hkind : kind ∈ [.featureLine, .backgroundLine, .scenarioLine, .scenarioOutlineLine,
      .examplesLine]) :
    visits inside (heading.lines kind ++ l) = .title kind heading.title :: visits inside l := by
  have htitle : titleOf heading.line (linesOf .other heading.description ++ l) =
      heading.title := by
    rw [titleOf, textsAhead_others _ h]
    rfl
  have hothers : visits inside (linesOf .other heading.description ++ l) = visits inside l :=
    visits_others heading.description l
  cases kind with
  | featureLine | backgroundLine | scenarioLine | scenarioOutlineLine | examplesLine =>
      rw [Heading.lines, List.cons_append, visits, insideBehind, if_neg (by decide), visitsAt,
        htitle, hothers]
      rfl
  | _ => simp at hkind

/-! ### Blocks -/

theorem visits_argument (a : Argument Leaf) (l : List (TokenKind × Leaf)) :
    visits false (a.lines ++ l) = a.document.visits ++ visits false l := by
  cases a with
  | table first rest => exact visits_rows (first :: rest) l
  | docString opening content closing =>
      have hclosing := EndsText.cons (by decide : TokenKind.docStringSeparator ≠ .other) closing l
      have hdocString : docStringOf opening
          (linesOf .other content ++ (.docStringSeparator, closing) :: l) =
            ⟨opening.location, if opening.text.isEmpty then none else some opening.text,
              joinLines content⟩ := by
        rw [docStringOf, textsAhead_others _ hclosing]
        rfl
      have hopening : visits false ((.docStringSeparator, opening) ::
          (linesOf .other content ++ (.docStringSeparator, closing) :: l)) =
            .docString (docStringOf opening
              (linesOf .other content ++ (.docStringSeparator, closing) :: l)) ::
                visits true (linesOf .other content ++ (.docStringSeparator, closing) :: l) :=
        rfl
      rw [Argument.lines, List.append_assoc, List.cons_append, List.singleton_append, hopening,
        hdocString, visits_others]
      rfl

theorem visits_step (s : Step Leaf) (l : List (TokenKind × Leaf)) :
    visits false (s.lines ++ l) = s.document.visits ++ visits false l := by
  rw [Step.lines, List.cons_append, visits, insideBehind, if_neg (by decide), Step.document,
    Gherkin.Step.visits]
  cases s.argument with
  | none => rfl
  | some a =>
      rw [Option.elim_some, visits_argument]
      rfl

theorem visits_steps (steps : List (Step Leaf)) (l : List (TokenKind × Leaf)) :
    visits false (steps.flatMap Step.lines ++ l) =
      (steps.map Step.document).flatMap Gherkin.Step.visits ++ visits false l := by
  induction steps with
  | nil => rfl
  | cons s steps ih =>
      rw [List.flatMap_cons, List.append_assoc, visits_step, ih, List.map_cons,
        List.flatMap_cons, List.append_assoc]

theorem EndsText.steps (steps : List (Step Leaf)) (h : EndsText l) :
    EndsText (steps.flatMap Step.lines ++ l) :=
  Starts.steps (P := (· ≠ .other)) (by decide) steps h

/-- A block is visited with its steps. -/
theorem visits_body (b : Body Leaf) (h : EndsText l) {kind : TokenKind}
    (hkind : kind ∈ [.featureLine, .backgroundLine, .scenarioLine, .scenarioOutlineLine,
      .examplesLine]) :
    visits false (b.lines kind ++ l) =
      .title kind b.heading.title ::
        ((b.steps.map Step.document).flatMap Gherkin.Step.visits ++ visits false l) := by
  rw [Body.lines, List.append_assoc, visits_heading _ (h.steps b.steps) hkind, visits_steps]

theorem EndsText.rows (rows : List Leaf) (h : EndsText l) :
    EndsText (linesOf .tableRow rows ++ l) :=
  Starts.rows (P := (· ≠ .other)) (by decide) rows h

theorem EndsText.examples (examples : List (Examples Leaf)) (h : EndsText l) :
    EndsText (examples.flatMap Examples.lines ++ l) :=
  Starts.examples (P := (· ≠ .other)) (by decide) (by decide) examples h

theorem visits_examples (e : Examples Leaf) (h : EndsText l) :
    visits false (e.lines ++ l) = e.document.visits ++ visits false l := by
  rw [Examples.lines, List.append_assoc, List.append_assoc, visits_tags,
    visits_heading _ (h.rows e.rows) (by simp), visits_rows, Gherkin.Examples.visits]
  cases hrows : e.rows <;> simp [Examples.document, hrows]

theorem visits_allExamples (examples : List (Examples Leaf)) (h : EndsText l) :
    visits false (examples.flatMap Examples.lines ++ l) =
      (examples.map Examples.document).flatMap Gherkin.Examples.visits ++ visits false l := by
  induction examples with
  | nil => rfl
  | cons e examples ih =>
      rw [List.flatMap_cons, List.append_assoc, visits_examples e (h.examples examples), ih,
        List.map_cons, List.flatMap_cons, List.append_assoc]

theorem visits_definition (d : Definition Leaf) (h : EndsText l) :
    visits false (d.lines ++ l) = d.document.visits ++ visits false l := by
  cases d with
  | scenario tags b =>
      rw [Definition.lines, List.append_assoc, visits_tags, visits_body b h (by simp),
        Definition.document, Gherkin.Definition.visits, List.append_assoc, List.cons_append]
  | outline o =>
      rw [Definition.lines, Outline.lines, List.append_assoc, List.append_assoc, visits_tags,
        visits_body _ (h.examples o.examples) (by simp), visits_allExamples _ h,
        Definition.document, Gherkin.Definition.visits]
      simp only [List.append_assoc, List.cons_append]

theorem EndsText.definitions (definitions : List (Definition Leaf)) (h : EndsText l) :
    EndsText (definitions.flatMap Definition.lines ++ l) :=
  Starts.definitions (P := (· ≠ .other)) (by decide) (by decide) (by decide) definitions h

theorem visits_definitions (definitions : List (Definition Leaf)) (h : EndsText l) :
    visits false (definitions.flatMap Definition.lines ++ l) =
      (definitions.map Definition.document).flatMap Gherkin.Definition.visits ++
        visits false l := by
  induction definitions with
  | nil => rfl
  | cons d definitions ih =>
      rw [List.flatMap_cons, List.append_assoc, visits_definition d (h.definitions definitions),
        ih, List.map_cons, List.flatMap_cons, List.append_assoc]

/-- A feature is walked through as its lines are listed. -/
theorem visits_feature (f : Feature Leaf) :
    visits false f.lines = f.document.visits := by
  have hnil : EndsText [] := fun x hx => by cases hx
  have hdefinitions := hnil.definitions f.definitions
  have hblocks : visits false (f.background.elim [] (Body.lines .backgroundLine) ++
      f.definitions.flatMap Definition.lines) =
        f.document.definitions.flatMap Gherkin.Definition.visits := by
    have hothers := visits_definitions f.definitions hnil
    rw [List.append_nil, visits, List.append_nil] at hothers
    rw [List.append_nil] at hdefinitions
    cases hbackground : f.background with
    | none => simp [Feature.document, hbackground, hothers]
    | some b =>
        rw [Option.elim_some, visits_body b hdefinitions (by simp), hothers]
        simp [Feature.document, hbackground, Body.background, Gherkin.Definition.visits]
  have hends : EndsText (f.background.elim [] (Body.lines .backgroundLine) ++
      f.definitions.flatMap Definition.lines) := by
    rw [List.append_nil] at hdefinitions
    cases f.background with
    | none => exact hdefinitions
    | some b => exact EndsText.cons (by decide) _ _
  have hlanguage : ∀ l, visits false (linesOf .language f.header.language.toList ++ l) =
      visits false l := by
    intro l
    cases f.header.language <;> rfl
  rw [Feature.lines, Header.lines]
  simp only [List.append_assoc]
  rw [hlanguage, visits_tags, visits_heading _ hends (by simp), hblocks]
  rfl

/-- A document is walked through as the lines of its tree are listed. -/
theorem walk_document (document : Option (Feature Leaf)) :
    (Tree.document document).walk = visits false (lines document) := by
  cases document with
  | none => rfl
  | some f => exact (visits_feature f).symm

end Tree
end Gherkin
