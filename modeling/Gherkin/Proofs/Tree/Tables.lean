import Gherkin.Proofs.Tree.Walk

/-!
# The tables of a document

The tables of the document of a syntax tree are the runs of rows among the lines
of the tree.
-/

namespace Gherkin

/-! ### Maximal runs -/

section MaximalRuns

variable {α β : Type}

/-- The maximal runs of elements with a property. -/
def maximalRuns (p : α → Bool) (l : List α) : List (List α) :=
  (l.splitOnP fun a => !p a).filter fun run => !run.isEmpty

/-- A run alone, unless it is empty. -/
def unlessEmpty (run : List α) : List (List α) :=
  if run.isEmpty then [] else [run]

theorem map_unlessEmpty (f : α → β) (run : List α) :
    (unlessEmpty run).map (List.map f) = unlessEmpty (run.map f) := by
  cases run <;> rfl

variable {p : α → Bool}

theorem maximalRuns_nil : maximalRuns p [] = [] :=
  rfl

/-- A run ends in front of an element that does not have the property. -/
theorem maximalRuns_append_cons {run : List α} (hrun : ∀ a ∈ run, p a = true) {a : α}
    (ha : p a = false) (l : List α) :
    maximalRuns p (run ++ a :: l) = unlessEmpty run ++ maximalRuns p l := by
  rw [maximalRuns, maximalRuns, List.splitOnP_append_cons_of_forall_mem (by simpa using hrun) a
    (by simpa using ha), unlessEmpty]
  cases run <;> rfl

theorem maximalRuns_cons {a : α} (ha : p a = false) (l : List α) :
    maximalRuns p (a :: l) = maximalRuns p l :=
  maximalRuns_append_cons (List.forall_mem_nil _) ha l

/-- A list of elements with the property is one run. -/
theorem maximalRuns_eq {run : List α} (hrun : ∀ a ∈ run, p a = true) :
    maximalRuns p run = unlessEmpty run := by
  rw [maximalRuns, List.splitOnP_eq_singleton (by simpa using hrun), unlessEmpty]
  cases run <;> rfl

/-- Elements with the property in front of one that does not have it are a run. -/
theorem maximalRuns_append {run l : List α} (hrun : ∀ a ∈ run, p a = true)
    (hl : ∀ a ∈ l.head?, p a = false) :
    maximalRuns p (run ++ l) = unlessEmpty run ++ maximalRuns p l := by
  cases l with
  | nil => rw [List.append_nil, maximalRuns_eq hrun, maximalRuns_nil, List.append_nil]
  | cons a l => rw [maximalRuns_append_cons hrun (hl a rfl), maximalRuns_cons (hl a rfl)]

end MaximalRuns

/-! ### The tables of a document -/

/-- The rows of a table below a step. -/
def StepArgument.tables : StepArgument → List (List TableRow)
  | dataTable table => [table.rows]
  | docString _ => []

/-- The rows of the table below a step, if there is one. -/
def Step.tables (s : Step) : List (List TableRow) :=
  s.argument.elim [] StepArgument.tables

/-- The header and the body of examples, if there are rows. -/
def Examples.tables (e : Examples) : List (List TableRow) :=
  unlessEmpty (e.header.toList ++ e.body)

/-- The tables of a definition, each as the list of its rows. -/
def Definition.tables : Definition → List (List TableRow)
  | background b => b.steps.flatMap Step.tables
  | scenario s => s.steps.flatMap Step.tables
  | outline o => o.steps.flatMap Step.tables ++ o.examples.flatMap Examples.tables

/-- The tables of a document, each as the list of its rows. -/
def Document.tables (d : Document) : List (List TableRow) :=
  d.feature.elim [] fun f => f.definitions.flatMap Definition.tables

namespace Tree

/-- The tables that lines stand for. -/
def tables (l : List (TokenKind × Leaf)) : List (List TableRow) :=
  (maximalRuns (fun x => x.1 = .tableRow) l).map fun run => run.map fun x => x.2.row

variable {l : List (TokenKind × Leaf)}

theorem tables_cons {kind : TokenKind} (hkind : kind ≠ .tableRow) (leaf : Leaf)
    (l : List (TokenKind × Leaf)) : tables ((kind, leaf) :: l) = tables l := by
  rw [tables, maximalRuns_cons (by simpa using hkind), tables]

theorem tables_linesOf {kind : TokenKind} (hkind : kind ≠ .tableRow) (run : List Leaf)
    (l : List (TokenKind × Leaf)) : tables (linesOf kind run ++ l) = tables l := by
  induction run with
  | nil => rfl
  | cons leaf run ih => rw [linesOf_cons, List.cons_append, tables_cons hkind, ih]

theorem tables_rows (rows : List Leaf) (h : Starts (· ≠ .tableRow) l) :
    tables (linesOf .tableRow rows ++ l) = unlessEmpty (rows.map Leaf.row) ++ tables l := by
  have hrows : ∀ x ∈ linesOf .tableRow rows, decide (x.1 = .tableRow) = true := by
    intro x hx
    obtain ⟨leaf, -, rfl⟩ := List.mem_map.mp hx
    exact decide_eq_true rfl
  rw [tables, maximalRuns_append hrows (by simpa [Starts] using h), List.map_append, ← tables]
  congr 1
  cases rows with
  | nil => rfl
  | cons row rows => simp [linesOf, unlessEmpty, Function.comp_def]

theorem tables_heading (heading : Heading Leaf) {kind : TokenKind} (hkind : kind ≠ .tableRow)
    (l : List (TokenKind × Leaf)) : tables (heading.lines kind ++ l) = tables l := by
  rw [Heading.lines, List.cons_append, tables_cons hkind, tables_linesOf (by decide)]

theorem tables_step (s : Step Leaf) (h : Starts (· ≠ .tableRow) l) :
    tables (s.lines ++ l) = s.document.tables ++ tables l := by
  rw [Step.lines, List.cons_append, tables_cons (by decide), Gherkin.Step.tables, Step.document]
  cases s.argument with
  | none => rfl
  | some a =>
      cases a with
      | table first rest => exact tables_rows (first :: rest) h
      | docString opening content closing =>
          rw [Option.elim_some, Argument.lines, List.append_assoc, List.cons_append,
            tables_cons (by decide), tables_linesOf (by decide)]
          exact tables_cons (by decide) closing l

theorem tables_steps (steps : List (Step Leaf)) (h : Starts (· ≠ .tableRow) l) :
    tables (steps.flatMap Step.lines ++ l) =
      (steps.map Step.document).flatMap Gherkin.Step.tables ++ tables l := by
  induction steps with
  | nil => rfl
  | cons s steps ih =>
      rw [List.flatMap_cons, List.append_assoc, tables_step s (h.steps (by decide) steps), ih,
        List.map_cons, List.flatMap_cons, List.append_assoc]

theorem tables_body (b : Body Leaf) {kind : TokenKind} (hkind : kind ≠ .tableRow)
    (h : Starts (· ≠ .tableRow) l) :
    tables (b.lines kind ++ l) =
      (b.steps.map Step.document).flatMap Gherkin.Step.tables ++ tables l := by
  rw [Body.lines, List.append_assoc, tables_heading _ hkind, tables_steps _ h]

theorem tables_examples (e : Examples Leaf) (h : Starts (· ≠ .tableRow) l) :
    tables (e.lines ++ l) = e.document.tables ++ tables l := by
  rw [Examples.lines, List.append_assoc, List.append_assoc, tables_linesOf (by decide),
    tables_heading _ (by decide), tables_rows _ h, Gherkin.Examples.tables, Examples.document]
  cases e.rows <;> rfl

theorem tables_allExamples (examples : List (Examples Leaf)) (h : Starts (· ≠ .tableRow) l) :
    tables (examples.flatMap Examples.lines ++ l) =
      (examples.map Examples.document).flatMap Gherkin.Examples.tables ++ tables l := by
  induction examples with
  | nil => rfl
  | cons e examples ih =>
      rw [List.flatMap_cons, List.append_assoc,
        tables_examples e (h.examples (by decide) (by decide) examples), ih, List.map_cons,
        List.flatMap_cons, List.append_assoc]

theorem tables_definition (d : Definition Leaf) (h : Starts (· ≠ .tableRow) l) :
    tables (d.lines ++ l) = d.document.tables ++ tables l := by
  cases d with
  | scenario tags b =>
      rw [Definition.lines, List.append_assoc, tables_linesOf (by decide),
        tables_body b (by decide) h]
      rfl
  | outline o =>
      rw [Definition.lines, Outline.lines, List.append_assoc, List.append_assoc,
        tables_linesOf (by decide),
        tables_body _ (by decide) (h.examples (by decide) (by decide) o.examples),
        tables_allExamples _ h, ← List.append_assoc]
      rfl

theorem tables_definitions (definitions : List (Definition Leaf))
    (h : Starts (· ≠ .tableRow) l) :
    tables (definitions.flatMap Definition.lines ++ l) =
      (definitions.map Definition.document).flatMap Gherkin.Definition.tables ++ tables l := by
  induction definitions with
  | nil => rfl
  | cons d definitions ih =>
      rw [List.flatMap_cons, List.append_assoc,
        tables_definition d (h.definitions (by decide) (by decide) (by decide) definitions), ih,
        List.map_cons, List.flatMap_cons, List.append_assoc]

/-- The tables of a document are the tables that the lines of its tree stand for. -/
theorem tables_document (t : Option (Feature Leaf)) :
    (document t).tables = tables (lines t) := by
  cases t with
  | none => rfl
  | some f =>
      have hnil : Starts (· ≠ .tableRow) [] := fun x hx => by cases hx
      have hdefinitions := tables_definitions f.definitions hnil
      have hstarts := hnil.definitions (by decide) (by decide) (by decide) f.definitions
      rw [List.append_nil] at hdefinitions hstarts
      have hbackground : tables (f.background.elim [] (Body.lines .backgroundLine) ++
          f.definitions.flatMap Definition.lines) =
            (Feature.document f).definitions.flatMap Gherkin.Definition.tables := by
        rw [Feature.document, List.flatMap_append]
        cases f.background with
        | none => simpa [tables, maximalRuns_nil] using hdefinitions
        | some b =>
            rw [Option.elim_some, tables_body b (by decide) hstarts, hdefinitions]
            simp [Body.background, Gherkin.Definition.tables, tables, maximalRuns_nil]
      rw [lines, Option.elim_some, Feature.lines, Header.lines]
      simp only [List.append_assoc]
      rw [tables_linesOf (by decide), tables_linesOf (by decide), tables_heading _ (by decide),
        hbackground]
      rfl

end Tree
end Gherkin
