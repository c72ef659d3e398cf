import Gherkin.Proofs.Rendering.Basic
import Gherkin.Proofs.Tree.Productions

/-!
# Sentences of rendered features

The lines of a rendered feature are meant as a sentence of the grammar: that of
the tree that the feature has, whatever stands on its lines.
-/

namespace Gherkin

open Gherkin.Tree (linesOf)

namespace Written

def Argument.shape : Argument → Tree.Argument Unit
  | table t => .table () (t.rest.map fun _ => ())
  | docString d => .docString () (d.content.map fun _ => ()) ()

def Step.shape (s : Step) : Tree.Step Unit :=
  ⟨(), s.argument.map Argument.shape⟩

def Heading.shape (h : Heading) : Tree.Heading Unit :=
  ⟨(), h.description.map fun _ => ()⟩

def Block.shape (b : Block) : Tree.Body Unit :=
  ⟨b.heading.shape, b.steps.map Step.shape⟩

/-- All tags stand on one line. -/
def tagShape : List Tag → List Unit
  | [] => []
  | _ :: _ => [()]

def Examples.shape (e : Examples) : Tree.Examples Unit :=
  ⟨tagShape e.tags, e.heading.shape, (e.table.first :: e.table.rest).map fun _ => ()⟩

def Scenario.shape (s : Scenario) : Tree.Definition Unit :=
  match s.examples with
  | none => .scenario (tagShape s.tags) s.block.shape
  | some examples => .outline ⟨tagShape s.tags, s.block.shape, examples.map Examples.shape⟩

/-- The tree of a feature, without what stands on its lines. -/
def Feature.shape (f : Feature) : Tree.Feature Unit :=
  ⟨⟨none, tagShape f.tags, f.heading.shape⟩, f.background.map Block.shape,
    f.scenarios.map Scenario.shape⟩

theorem sentence_append (es es' : List Entry) :
    Entry.sentence (es ++ es') = Entry.sentence es ++ Entry.sentence es' :=
  List.filterMap_append

theorem sentence_flatMap {α β : Type} {entries : α → List Entry} {shape : α → β}
    {lines : β → List (TokenKind × Unit)}
    (h : ∀ x, Entry.sentence (entries x) = (lines (shape x)).map Prod.fst) (xs : List α) :
    Entry.sentence (xs.flatMap entries) = ((xs.map shape).flatMap lines).map Prod.fst := by
  induction xs with
  | nil => rfl
  | cons x xs ih =>
      rw [List.flatMap_cons, sentence_append, h, ih, List.map_cons, List.flatMap_cons,
        List.map_append]

theorem sentence_lines {α : Type} {kind : TokenKind} {line : α → Line} (xs : List α) :
    Entry.sentence (xs.map fun x => .line kind (line x)) =
      (linesOf kind (xs.map fun _ => ())).map Prod.fst := by
  induction xs with
  | nil => rfl
  | cons x xs ih => exact congrArg (kind :: ·) ih

theorem sentence_comments (remarks : List Remark) :
    Entry.sentence (remarks.map fun r => Entry.comment ⟨r.text⟩) = [] := by
  rw [Entry.sentence, List.filterMap_map, List.filterMap_eq_nil_iff]
  exact fun r _ => rfl

theorem sentence_tags (n : Nat) (tags : List Tag) :
    Entry.sentence (tagEntries n tags) = (linesOf .tagLine (tagShape tags)).map Prod.fst := by
  cases tags <;> rfl

theorem sentence_heading (kind : TokenKind) (n : Nat) (keyword : String) (h : Heading) :
    Entry.sentence (h.entries kind n keyword) = (h.shape.lines kind).map Prod.fst :=
  congrArg (kind :: ·) (sentence_lines h.description)

theorem sentence_argument (a : Argument) :
    Entry.sentence a.entries = a.shape.lines.map Prod.fst := by
  cases a with
  | table t => exact sentence_lines (t.first :: t.rest)
  | docString d =>
      have hcontent : Entry.sentence
          (d.content.map fun l => .line .other (indented 6 (d.separator.escape l.chars))) =
            (linesOf .other (d.content.map fun _ => ())).map Prod.fst :=
        sentence_lines d.content
      rw [Argument.entries, DocString.entries, sentence_append, Argument.shape,
        Tree.Argument.lines, List.map_append]
      refine congrArg (· ++ [TokenKind.docStringSeparator]) ?_
      exact congrArg (TokenKind.docStringSeparator :: ·) hcontent

theorem sentence_step (s : Step) :
    Entry.sentence s.entries = s.shape.lines.map Prod.fst := by
  rw [Step.entries, sentence_append, sentence_comments, List.nil_append]
  refine congrArg (TokenKind.stepLine :: ·) ?_
  rw [Step.shape]
  cases s.argument with
  | none => rfl
  | some a => exact sentence_argument a

theorem sentence_block (kind : TokenKind) (keyword : String) (b : Block) :
    Entry.sentence (b.entries kind keyword) = (b.shape.lines kind).map Prod.fst := by
  rw [Block.entries, sentence_append, sentence_heading, sentence_flatMap sentence_step,
    ← List.map_append]
  rfl

theorem sentence_examples (e : Examples) :
    Entry.sentence e.entries = e.shape.lines.map Prod.fst := by
  have hentries : Entry.sentence e.entries =
      Entry.sentence (tagEntries 4 e.tags ++ e.heading.entries .examplesLine 4 "Examples" ++
        e.table.entries) := rfl
  have hrows : Entry.sentence e.table.entries =
      (linesOf .tableRow ((e.table.first :: e.table.rest).map fun _ => ())).map Prod.fst :=
    sentence_lines (e.table.first :: e.table.rest)
  rw [hentries, sentence_append, sentence_append, sentence_tags, sentence_heading, hrows,
    ← List.map_append, ← List.map_append]
  rfl

theorem sentence_scenario (s : Scenario) :
    Entry.sentence s.entries = s.shape.lines.map Prod.fst := by
  rw [Scenario.shape]
  cases hexamples : s.examples with
  | none =>
      have hentries : Entry.sentence s.entries =
          Entry.sentence (tagEntries 2 s.tags ++ s.block.entries .scenarioLine "Scenario") := by
        simp only [Scenario.entries, hexamples]
        rfl
      rw [hentries, sentence_append, sentence_tags, sentence_block, ← List.map_append]
      rfl
  | some examples =>
      have hentries : Entry.sentence s.entries =
          Entry.sentence (tagEntries 2 s.tags ++
            (s.block.entries .scenarioOutlineLine "Scenario Outline" ++
              examples.flatMap Examples.entries)) := by
        simp only [Scenario.entries, hexamples]
        rfl
      rw [hentries, sentence_append, sentence_append, sentence_tags, sentence_block,
        sentence_flatMap sentence_examples, ← List.map_append, ← List.map_append,
        ← List.append_assoc]
      rfl

theorem sentence_background (b : Option Block) :
    Entry.sentence (b.elim [] backgroundEntries) =
      ((b.map Block.shape).elim [] (Tree.Body.lines .backgroundLine)).map Prod.fst := by
  cases b with
  | none => rfl
  | some b => exact sentence_block .backgroundLine "Background" b

/-- The lines of a rendered feature make a sentence of the grammar. -/
theorem derives_feature (f : Feature) :
    Derives (.rule .document) (Entry.sentence f.entries) := by
  have hlines : Entry.sentence f.entries = (Tree.lines (some f.shape)).map Prod.fst := by
    rw [Feature.entries, sentence_append, sentence_append, sentence_append, sentence_tags,
      sentence_heading, sentence_background, sentence_flatMap sentence_scenario,
      ← List.map_append, ← List.map_append, ← List.map_append]
    rfl
  rw [hlines]
  exact Tree.derives_iff_exists_lines.mpr ⟨some f.shape, rfl⟩

end Written
end Gherkin
