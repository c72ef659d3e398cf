import Gherkin.Proofs.Builder.Closing
import Gherkin.Proofs.Draft.Moves
import Gherkin.Proofs.Tree.Document

/-!
# The open rules of a draft

A draft of tokens says which rules are open and which children each of them
has.  Closing rules, opening rules and adding a token, as the table of the
grammar says, leads from the open rules of a draft to those of the next draft.
-/

namespace Gherkin

open Gherkin.Tree (nodesOf tagNodes EvenRows)

/-- The kinds of lines that end a table. -/
def TokenKind.endsTable : TokenKind → Bool
  | empty | comment | tableRow | docStringSeparator | other => false
  | _ => true

namespace Draft

open Builder

/-- The table leads from one builder to another when a token is added. -/
def Builds (b : Builder) (s : State) (kind : TokenKind) (ahead : Bool) (leaf : Leaf)
    (b' : Builder) : Prop :=
  ∃ t, s.select kind ahead = some t ∧ ∃ moved, b.move t = some moved ∧
    moved.addLeaf kind leaf = b'

/-- The open rules of a heading, where `front` lists the children in front of
its title line. -/
def Heading.scopes (rule : Rule) (front : List Node) : Heading Leaf → List Scope
  | title line => [⟨rule, front ++ [.token line]⟩]
  | description line first rest =>
    [⟨.description, nodesOf (first :: rest)⟩, ⟨rule, front ++ [.token line]⟩]
  | comments h => [⟨rule, front ++ h.nodes⟩]

/-- The number of rules inside the rule of a heading. -/
def Heading.depth : Heading Leaf → Nat
  | title _ => 0
  | description _ _ _ => 1
  | comments _ => 0

/-- The open rules of a step. -/
def Step.scopes : Step Leaf → List Scope
  | bare line => [⟨.step, [.token line]⟩]
  | table line first rest => [⟨.dataTable, nodesOf (first :: rest)⟩, ⟨.step, [.token line]⟩]
  | docString line opening content =>
    [⟨.docString, nodesOf (opening :: content)⟩, ⟨.step, [.token line]⟩]
  | closed line opening content closing =>
    [⟨.docString, nodesOf (opening :: content ++ [closing])⟩, ⟨.step, [.token line]⟩]

/-- The number of rules inside the rule of a step. -/
def Step.depth : Step Leaf → Nat
  | bare _ => 0
  | table _ _ _ => 1
  | docString _ _ _ => 1
  | closed _ _ _ _ => 1

/-- The table that is being read is even. -/
def Step.Even : Step Leaf → Prop
  | table _ first rest => EvenRows first rest
  | _ => True

/-- The open rules of a block with steps. -/
def Body.scopes (rule : Rule) : Body Leaf → List Scope
  | heading h => h.scopes rule []
  | step h steps last => last.scopes ++ [⟨rule, (⟨h, steps⟩ : Tree.Body Leaf).nodes⟩]

/-- The number of rules inside the rule of a block. -/
def Body.depth : Body Leaf → Nat
  | heading h => h.depth
  | step _ _ last => last.depth + 1

/-- The table that is being read is even. -/
def Body.Even : Body Leaf → Prop
  | heading _ => True
  | step _ _ last => last.Even

/-- The open rules of an outline and of what is around it. -/
def outlineScopes (f : Tree.Feature Leaf) (o : Tree.Outline Leaf) : List Scope :=
  [⟨.scenarioOutline, o.nodes⟩, ⟨.scenarioDefinition, tagNodes o.tags⟩, ⟨.feature, f.nodes⟩]

/-- The open rules inside the document, innermost first. -/
def inner : Draft Leaf → List Scope
  | start => []
  | language line => [⟨.featureHeader, [.token line]⟩, ⟨.feature, []⟩]
  | featureTags lang first rest =>
    [⟨.tags, nodesOf (first :: rest)⟩, ⟨.featureHeader, nodesOf lang.toList⟩, ⟨.feature, []⟩]
  | feature lang tags h =>
    h.scopes .featureHeader (nodesOf lang.toList ++ tagNodes tags) ++ [⟨.feature, []⟩]
  | background header b =>
    b.scopes .background ++ [⟨.feature, [.group .featureHeader header.nodes]⟩]
  | definitionTags f first rest =>
    [⟨.tags, nodesOf (first :: rest)⟩, ⟨.scenarioDefinition, []⟩, ⟨.feature, f.nodes⟩]
  | scenario f tags b =>
    b.scopes .scenario ++ [⟨.scenarioDefinition, tagNodes tags⟩, ⟨.feature, f.nodes⟩]
  | outline f tags b =>
    b.scopes .scenarioOutline ++ [⟨.scenarioDefinition, tagNodes tags⟩, ⟨.feature, f.nodes⟩]
  | examplesTags f o first rest =>
    [⟨.tags, nodesOf (first :: rest)⟩, ⟨.examplesDefinition, []⟩] ++ outlineScopes f o
  | examples f o tags h =>
    h.scopes .examples [] ++ ⟨.examplesDefinition, tagNodes tags⟩ :: outlineScopes f o
  | examplesTable f o tags h first rest =>
    ⟨.examplesTable, nodesOf (first :: rest)⟩ :: ⟨.examples, h.nodes⟩ ::
      ⟨.examplesDefinition, tagNodes tags⟩ :: outlineScopes f o
  | finished _ => []

/-- The children of the document. -/
def documentNodes : Draft Leaf → List Node
  | finished (some f) => [.feature f.document]
  | _ => []

/-- The open rules, innermost first. -/
def scopes (d : Draft Leaf) : List Scope :=
  d.inner ++ [⟨.document, d.documentNodes⟩]

/-- The table that is being read is even. -/
def Even : Draft Leaf → Prop
  | background _ b => b.Even
  | scenario _ _ b => b.Even
  | outline _ _ b => b.Even
  | examplesTable _ _ _ _ first rest => EvenRows first rest
  | _ => True

/-- The builder of a draft. -/
def builder (d : Draft Leaf) (pending : List Comment) : Builder :=
  ⟨[], d.scopes, pending⟩

/-! ### Closing rules -/

section

variable (n : Nat) (outer : List Scope) (pending : List Comment)

theorem Heading.closeMany_depth (h : Heading Leaf) (rule : Rule) (front : List Node) :
    closeMany (n + h.depth) ⟨[], h.scopes rule front ++ outer, pending⟩ =
      closeMany n ⟨[], ⟨rule, front ++ h.tree.nodes⟩ :: outer, pending⟩ := by
  cases h with
  | title line => rfl
  | description line first rest =>
      have hfold : Fold.node? .description (nodesOf (first :: rest)) =
          .ok (some (.description (Fold.description (nodesOf (first :: rest))))) := rfl
      refine (closeMany_fold hfold n outer pending).trans ?_
      simp [tree, Tree.Heading.nodes, Tree.descriptionNodes]
  | comments h => rfl

theorem Step.closeMany_depth {s : Step Leaf} {t : Tree.Step Leaf} (ht : s.tree? = some t)
    (hread : WellRead s.lines) (heven : s.Even) (rule : Rule) (children : List Node) :
    closeMany (n + 1 + s.depth) ⟨[], s.scopes ++ ⟨rule, children⟩ :: outer, pending⟩ =
      closeMany n ⟨[], ⟨rule, children ++ [.step t.document]⟩ :: outer, pending⟩ := by
  cases s with
  | bare line =>
      obtain rfl := Option.some.inj ht
      simp only [lines, WellRead.cons_iff] at hread
      have hstep := Fold.node?_step (s := ⟨line, none⟩) hread.1
      exact closeMany_fold hstep n outer pending
  | table line first rest =>
      obtain rfl := Option.some.inj ht
      simp only [lines, WellRead.cons_iff, WellRead.linesOf_iff] at hread
      have hstep := Fold.node?_step (s := ⟨line, some (.table first rest)⟩) hread.1
      refine (closeMany_fold (Fold.node?_dataTable hread.2 heven) _ _ pending).trans ?_
      exact closeMany_fold hstep n outer pending
  | docString line opening content => cases ht
  | closed line opening content closing =>
      obtain rfl := Option.some.inj ht
      simp only [lines, Tree.Argument.lines, WellRead.cons_iff, List.cons_append,
        WellRead.append_iff, WellRead.linesOf_iff] at hread
      obtain ⟨hline, hopening, hcontent, hclosing, -⟩ := hread
      have hstep := Fold.node?_step (s := ⟨line, some (.docString opening content closing)⟩) hline
      refine (closeMany_fold (Fold.node?_docString hopening hcontent hclosing) _ _
        pending).trans ?_
      exact closeMany_fold hstep n outer pending

theorem Body.closeMany_depth {b : Body Leaf} {t : Tree.Body Leaf} (ht : b.tree? = some t)
    {kind : TokenKind} (hread : WellRead (b.lines kind)) (heven : b.Even) (rule : Rule) :
    closeMany (n + b.depth) ⟨[], b.scopes rule ++ outer, pending⟩ =
      closeMany n ⟨[], ⟨rule, t.nodes⟩ :: outer, pending⟩ := by
  cases b with
  | heading h =>
      obtain rfl := Option.some.inj ht
      refine (h.closeMany_depth n outer pending rule []).trans ?_
      simp [Tree.Body.nodes]
  | step h steps last =>
      obtain ⟨s, hs, rfl⟩ := Option.map_eq_some_iff.mp ht
      rw [lines, WellRead.append_iff] at hread
      have hdepth : n + (step h steps last).depth = n + 1 + last.depth := by
        rw [depth]
        omega
      rw [scopes, List.append_assoc, hdepth]
      refine (last.closeMany_depth n outer pending hs hread.2 heven rule _).trans ?_
      simp [Tree.Body.nodes]

theorem closeMany_examples {e : Tree.Examples Leaf} (hread : WellRead e.lines)
    (f : Tree.Feature Leaf) (o : Tree.Outline Leaf) :
    closeMany (n + 2)
        ⟨[], ⟨.examples, e.heading.nodes ++ Tree.rowNodes e.rows⟩ ::
          ⟨.examplesDefinition, tagNodes e.tags⟩ :: (outlineScopes f o ++ outer), pending⟩ =
      closeMany n ⟨[], outlineScopes f (o.add e) ++ outer, pending⟩ := by
  have hgroup : Fold.node? .examples (e.heading.nodes ++ Tree.rowNodes e.rows) =
      .ok (some (.group .examples (e.heading.nodes ++ Tree.rowNodes e.rows))) := rfl
  refine (closeMany_fold hgroup _ _ pending).trans ?_
  refine (closeMany_fold (Fold.node?_examples hread) _ _ pending).trans ?_
  simp [outlineScopes, Tree.Outline.nodes, Tree.Outline.add]

end

theorem Heading.length_rules (h : Heading Leaf) (block : Block) :
    (State.header block h.place).rules.length = block.rules.length + h.depth := by
  cases h <;> simp [place, depth, State.rules]

theorem Body.length_rules (b : Body Leaf) (block : StepBlock) :
    (b.state block).rules.length = block.block.rules.length + b.depth := by
  cases b with
  | heading h => exact h.length_rules block.block
  | step h steps last => cases last <;> simp [state, depth, Step.depth, Step.place, State.rules]

/-- Closing all but the outline folds the examples that are being read. -/
theorem closeMany_outline? {d : Draft Leaf} {f : Tree.Feature Leaf} {o : Tree.Outline Leaf}
    (h : d.outline? = some (f, o)) (hread : WellRead d.lines) (heven : d.Even) (n : Nat)
    (pending : List Comment) :
    closeMany (n + (d.state.rules.length - 3)) (d.builder pending) =
      closeMany n ⟨[], outlineScopes f o ++ [⟨.document, []⟩], pending⟩ := by
  cases d with
  | outline f tags b =>
      obtain ⟨t, ht, hfo⟩ := Option.map_eq_some_iff.mp h
      cases hfo
      simp only [lines, WellRead.append_iff] at hread
      have hlength : n + ((b.state .outline).rules.length - 3) = n + b.depth := by
        rw [b.length_rules]
        simp [StepBlock.block, Block.rules]
      rw [state, hlength, builder, scopes, inner, List.append_assoc]
      refine (b.closeMany_depth n _ pending ht hread.2 heven _).trans ?_
      simp [outlineScopes, Tree.Outline.nodes, documentNodes]
  | examples f o tags heading =>
      cases h
      simp only [lines, WellRead.append_iff] at hread
      have hlength : n + ((State.header .examples heading.place).rules.length - 3) =
          n + 2 + heading.depth := by
        rw [heading.length_rules]
        simp only [Block.rules, List.length_cons, List.length_nil]
        omega
      rw [state, hlength, builder, scopes, inner, List.append_assoc, List.cons_append]
      refine (heading.closeMany_depth _ _ pending _ []).trans ?_
      have hclose := closeMany_examples n [⟨.document, []⟩] pending hread.2 f o
      simpa [Tree.rowNodes, documentNodes] using hclose
  | examplesTable f o tags heading first rest =>
      cases h
      simp only [lines, WellRead.append_iff] at hread
      have hrows := hread.2
      simp only [Tree.Examples.lines, WellRead.append_iff, WellRead.linesOf_iff] at hrows
      refine (closeMany_fold (Fold.node?_examplesTable hrows.2 heven) (n + 2) _ pending).trans ?_
      exact closeMany_examples n [⟨.document, []⟩] pending hread.2 f o
  | start | language | featureTags | feature | background | definitionTags | scenario
  | examplesTags | finished => cases h

@[simp] theorem nodes_add (f : Tree.Feature Leaf) (definition : Tree.Definition Leaf) :
    (f.add definition).nodes = f.nodes ++ [.definition definition.document] := by
  simp [Tree.Feature.nodes, Tree.Feature.document, Tree.Feature.add]

theorem closeMany_outline {o : Tree.Outline Leaf} (hread : WellRead o.lines)
    (f : Tree.Feature Leaf) (n : Nat) (pending : List Comment) :
    closeMany (n + 2) ⟨[], outlineScopes f o ++ [⟨.document, []⟩], pending⟩ =
      closeMany n ⟨[], [⟨.feature, (f.add (.outline o)).nodes⟩, ⟨.document, []⟩], pending⟩ := by
  simp only [Tree.Outline.lines, WellRead.append_iff, WellRead.linesOf_iff] at hread
  have hgroup : Fold.node? .scenarioOutline o.nodes =
      .ok (some (.group .scenarioOutline o.nodes)) := rfl
  refine (closeMany_fold hgroup _ _ pending).trans ?_
  refine (closeMany_fold (Fold.node?_outline hread.1.1 hread.1.2) _ _ pending).trans ?_
  simp

theorem three_le_length_rules {d : Draft Leaf} {f : Tree.Feature Leaf} {o : Tree.Outline Leaf}
    (h : d.outline? = some (f, o)) : 3 ≤ d.state.rules.length := by
  cases d with
  | outline f tags b =>
      rw [state, b.length_rules]
      simp [StepBlock.block, Block.rules]
  | examples f o tags heading =>
      rw [state, heading.length_rules]
      simp only [Block.rules, List.length_cons, List.length_nil]
      omega
  | examplesTable => simp [state, State.rules, Block.rules]
  | start | language | featureTags | feature | background | definitionTags | scenario
  | examplesTags | finished => cases h

theorem closeMany_feature?_of_outline? {d : Draft Leaf} {f : Tree.Feature Leaf}
    {o : Tree.Outline Leaf} (h : d.outline? = some (f, o)) (hread : WellRead d.lines)
    (heven : d.Even) (n : Nat) (pending : List Comment) :
    closeMany (n + (d.state.rules.length - 1)) (d.builder pending) =
      closeMany n ⟨[], [⟨.feature, (f.add (.outline o)).nodes⟩, ⟨.document, []⟩], pending⟩ := by
  have hlength : n + (d.state.rules.length - 1) = n + 2 + (d.state.rules.length - 3) := by
    have hthree := three_le_length_rules h
    omega
  rw [hlength, closeMany_outline? h hread heven]
  rw [← lines_of_outline? h, WellRead.append_iff] at hread
  exact closeMany_outline hread.2 f n pending

/-- Closing all but the feature folds the block that is being read. -/
theorem closeMany_feature? {d : Draft Leaf} {f : Tree.Feature Leaf} (h : d.feature? = some f)
    (hread : WellRead d.lines) (heven : d.Even) (n : Nat) (pending : List Comment) :
    closeMany (n + (d.state.rules.length - 1)) (d.builder pending) =
      closeMany n ⟨[], [⟨.feature, f.nodes⟩, ⟨.document, []⟩], pending⟩ := by
  cases d with
  | feature lang tags heading =>
      obtain rfl := Option.some.inj h
      have hlength : n + ((State.header .feature heading.place).rules.length - 1) =
          n + 1 + heading.depth := by
        rw [heading.length_rules]
        simp only [Block.rules, List.length_cons, List.length_nil]
        omega
      rw [state, hlength, builder, scopes, inner, List.append_assoc]
      refine (heading.closeMany_depth _ _ pending _ _).trans ?_
      let header : Tree.Header Leaf := ⟨lang, tags, heading.tree⟩
      have hgroup : Fold.node? .featureHeader header.nodes =
          .ok (some (.group .featureHeader header.nodes)) := rfl
      exact closeMany_fold hgroup n _ pending
  | background header b =>
      obtain ⟨t, ht, rfl⟩ := Option.map_eq_some_iff.mp h
      simp only [lines, WellRead.append_iff] at hread
      have hlength : n + ((b.state .background).rules.length - 1) = n + 1 + b.depth := by
        rw [b.length_rules]
        simp only [StepBlock.block, Block.rules, List.length_cons, List.length_nil]
        omega
      rw [state, hlength, builder, scopes, inner, List.append_assoc]
      refine (b.closeMany_depth _ _ pending ht hread.2 heven _).trans ?_
      rw [← Body.lines_of_tree? ht] at hread
      exact closeMany_fold (Fold.node?_background hread.2) n _ pending
  | scenario f tags b =>
      obtain ⟨t, ht, rfl⟩ := Option.map_eq_some_iff.mp h
      simp only [lines, WellRead.append_iff, WellRead.linesOf_iff] at hread
      have hlength : n + ((b.state .scenario).rules.length - 1) = n + 2 + b.depth := by
        rw [b.length_rules]
        simp only [StepBlock.block, Block.rules, List.length_cons, List.length_nil]
        omega
      rw [state, hlength, builder, scopes, inner, List.append_assoc]
      refine (b.closeMany_depth _ _ pending ht hread.2 heven _).trans ?_
      have hgroup : Fold.node? .scenario t.nodes = .ok (some (.group .scenario t.nodes)) := rfl
      refine (closeMany_fold hgroup _ _ pending).trans ?_
      rw [← Body.lines_of_tree? ht] at hread
      refine (closeMany_fold (Fold.node?_scenario hread.1.2 hread.2) n _ pending).trans ?_
      simp [documentNodes]
  | outline f tags b =>
      obtain ⟨t, ht, rfl⟩ := Option.map_eq_some_iff.mp h
      have houtline : (outline f tags b).outline? = some (f, ⟨tags, t, []⟩) := by
        rw [outline?, ht, Option.map_some]
      exact closeMany_feature?_of_outline? houtline hread heven n pending
  | examples f o tags heading =>
      cases h
      exact closeMany_feature?_of_outline? (d := examples f o tags heading) rfl hread heven n
        pending
  | examplesTable f o tags heading first rest =>
      cases h
      exact closeMany_feature?_of_outline? (d := examplesTable f o tags heading first rest) rfl
        hread heven n pending
  | start | language | featureTags | definitionTags | examplesTags | finished => cases h

/-! ### Pushing a line -/

theorem nodesOf_append_singleton (first : Leaf) (rest : List Leaf) (leaf : Leaf) :
    nodesOf (first :: (rest ++ [leaf])) = nodesOf (first :: rest) ++ [.token leaf] := by
  simp [nodesOf]

theorem Heading.builds_push {h h' : Heading Leaf} {kind : TokenKind} {leaf : Leaf}
    (hpush : h.push kind leaf = some h') (block : Block) (ahead : Bool) (rule : Rule)
    (front : List Node) (outer : List Scope) (pending : List Comment) :
    Builds ⟨[], h.scopes rule front ++ outer, pending⟩ (.header block h.place) kind ahead leaf
      ⟨[], h'.scopes rule front ++ outer, pending⟩ := by
  rcases h with line | ⟨line, first, rest⟩ | h
  · cases kind <;> cases hpush <;> cases block <;> exact ⟨_, rfl, _, rfl, rfl⟩
  · cases kind with
    | other =>
        cases hpush
        simp only [scopes, nodesOf_append_singleton]
        cases block <;> exact ⟨_, rfl, _, rfl, rfl⟩
    | comment =>
        cases hpush
        have hclose := (description line first rest).closeMany_depth 0 outer pending rule front
        have hmove : ∀ t : Transition, t.closes = 1 → t.opens = [] →
            move ⟨[], (description line first rest).scopes rule front ++ outer, pending⟩ t =
              some ⟨[], ⟨rule, front ++ Tree.Heading.nodes ⟨line, first :: rest⟩⟩ :: outer,
                pending⟩ := by
          intro t hcloses hopens
          rw [move, hcloses, hopens]
          exact congrArg (Option.map fun b => b) hclose
        cases block <;> exact ⟨_, rfl, _, hmove _ rfl rfl, rfl⟩
    | _ => cases hpush
  · cases kind <;> cases hpush <;> cases block <;> exact ⟨_, rfl, _, rfl, rfl⟩

theorem Step.builds_push {s s' : Step Leaf} {kind : TokenKind} {leaf : Leaf}
    (hpush : s.push kind leaf = some s') (block : StepBlock) (ahead : Bool)
    (outer : List Scope) (pending : List Comment) :
    Builds ⟨[], s.scopes ++ outer, pending⟩ (.steps block s.place) kind ahead leaf
      ⟨[], s'.scopes ++ outer, pending⟩ := by
  cases s <;> cases kind <;> cases hpush <;> cases block <;>
    simp only [scopes, List.cons_append, nodesOf_append_singleton] <;>
    exact ⟨_, rfl, _, rfl, rfl⟩

theorem select_stepLine {b : Body Leaf} {t : Tree.Body Leaf} (ht : b.tree? = some t)
    (block : StepBlock) (ahead : Bool) :
    (b.state block).select .stepLine ahead = some ((b.state block).nextStep block) := by
  rcases b with (_ | _ | _) | ⟨h, steps, _ | _ | _ | _⟩ <;> cases ht <;> cases block <;> rfl

theorem Body.builds_push {b b' : Body Leaf} {kind : TokenKind} {leaf : Leaf}
    (hpush : b.push kind leaf = some b') {titleKind : TokenKind}
    (hread : WellRead (b.lines titleKind)) (heven : kind.endsTable → b.Even)
    (block : StepBlock) (ahead : Bool) (rule : Rule) (outer : List Scope) (pending : List Comment) :
    Builds ⟨[], b.scopes rule ++ outer, pending⟩ (b.state block) kind ahead leaf
      ⟨[], b'.scopes rule ++ outer, pending⟩ := by
  unfold push at hpush
  split at hpush
  · next hkind =>
      subst hkind
      obtain ⟨t, ht, rfl⟩ := Option.map_eq_some_iff.mp hpush
      have hclose := b.closeMany_depth 0 outer pending ht hread (heven rfl) rule
      have hcloses : ((b.state block).nextStep block).closes = 0 + b.depth := by
        change (b.state block).rules.length - block.block.rules.length = 0 + b.depth
        rw [b.length_rules]
        omega
      refine ⟨_, select_stepLine ht block ahead,
        ⟨[], ⟨.step, []⟩ :: ⟨rule, t.nodes⟩ :: outer, pending⟩, ?_, rfl⟩
      rw [move, hcloses, hclose]
      rfl
  · split at hpush
    · obtain ⟨h', hh', rfl⟩ := Option.map_eq_some_iff.mp hpush
      exact Heading.builds_push hh' block.block ahead rule [] outer pending
    · obtain ⟨s', hs', rfl⟩ := Option.map_eq_some_iff.mp hpush
      simp only [scopes, List.append_assoc]
      exact Step.builds_push hs' block ahead _ pending

/-! ### Transitions that close the block being read -/

theorem one_le_length_rules {d : Draft Leaf} {f : Tree.Feature Leaf} (h : d.feature? = some f) :
    1 ≤ d.state.rules.length := by
  cases d with
  | feature lang tags heading =>
      rw [state, heading.length_rules]
      exact Nat.le_add_right_of_le (by decide)
  | background header b =>
      rw [state, b.length_rules]
      exact Nat.le_add_right_of_le (by decide)
  | scenario f tags b =>
      rw [state, b.length_rules]
      exact Nat.le_add_right_of_le (by decide)
  | outline f tags b =>
      rw [state, b.length_rules]
      exact Nat.le_add_right_of_le (by decide)
  | examples f o tags heading =>
      rw [state, heading.length_rules]
      exact Nat.le_add_right_of_le (by decide)
  | examplesTable => exact Nat.le_add_left 1 _
  | start | language | featureTags | definitionTags | examplesTags | finished => cases h

theorem select_of_feature? {d : Draft Leaf} {f : Tree.Feature Leaf} (h : d.feature? = some f)
    (ahead : Bool) :
    d.state.select .eof ahead = some d.state.finish ∧
      d.state.select .scenarioLine ahead = d.state.scenarioTitles[0]? ∧
      d.state.select .scenarioOutlineLine ahead = d.state.scenarioTitles[1]? ∧
      d.state.select .tagLine ahead =
        some (if d.outline?.isSome && ahead then d.state.tagsOfExamples
          else d.state.tagsOfScenario) := by
  cases d with
  | feature lang tags heading => cases heading <;> exact ⟨rfl, rfl, rfl, rfl⟩
  | background header b =>
      rcases b with (_ | _ | _) | ⟨h, steps, _ | _ | _ | _⟩ <;> cases h <;>
        exact ⟨rfl, rfl, rfl, rfl⟩
  | scenario header tags b =>
      rcases b with (_ | _ | _) | ⟨h, steps, _ | _ | _ | _⟩ <;> cases h <;>
        exact ⟨rfl, rfl, rfl, rfl⟩
  | outline header tags b =>
      rcases b with (_ | _ | _) | ⟨h, steps, _ | _ | _ | _⟩ <;> cases h <;> cases ahead <;>
        exact ⟨rfl, rfl, rfl, rfl⟩
  | examples f o tags heading =>
      cases heading <;> cases ahead <;> exact ⟨rfl, rfl, rfl, rfl⟩
  | examplesTable => cases ahead <;> exact ⟨rfl, rfl, rfl, rfl⟩
  | start | language | featureTags | definitionTags | examplesTags | finished => cases h

theorem select_of_outline? {d : Draft Leaf} {f : Tree.Feature Leaf} {o : Tree.Outline Leaf}
    (h : d.outline? = some (f, o)) (ahead : Bool) :
    d.state.select .examplesLine ahead = some d.state.examplesTitle := by
  cases d with
  | outline header tags b =>
      rcases b with (_ | _ | _) | ⟨h, steps, _ | _ | _ | _⟩ <;> cases h <;> rfl
  | examples f o tags heading => cases heading <;> rfl
  | examplesTable => rfl
  | start | language | featureTags | feature | background | definitionTags | scenario
  | examplesTags | finished => cases h

theorem builds_eof {d : Draft Leaf} {document : Option (Tree.Feature Leaf)}
    (h : d.document? = some document) (hread : WellRead d.lines) (heven : d.Even)
    (ahead : Bool) (leaf : Leaf) (pending : List Comment) :
    Builds (d.builder pending) d.state .eof ahead leaf
      ((finished document).builder pending) := by
  unfold document? at h
  split at h
  · cases h
    exact ⟨_, rfl, _, rfl, rfl⟩
  · obtain ⟨f, hf, rfl⟩ := Option.map_eq_some_iff.mp h
    have hlength : d.state.rules.length = 0 + 1 + (d.state.rules.length - 1) := by
      have hone := one_le_length_rules hf
      omega
    have hread' := hread
    rw [← lines_of_feature? hf] at hread'
    simp only [Tree.Feature.lines, WellRead.append_iff] at hread'
    have hclose : closeMany 1 ⟨[], [⟨.feature, f.nodes⟩, ⟨.document, []⟩], pending⟩ =
        some ((finished (some f)).builder pending) :=
      closeMany_fold (Fold.node?_feature hread'.1.1) 0 [] pending
    refine ⟨_, (select_of_feature? hf ahead).1, (finished (some f)).builder pending, ?_, rfl⟩
    change (closeMany d.state.rules.length _).map _ = _
    rw [hlength, closeMany_feature? hf hread heven, hclose]
    rfl

/-- A transition closes all but the scopes that it keeps, and opens others. -/
theorem move_of_closeMany {s : State} {kept : Nat} {b closed : Builder}
    (h : closeMany (s.rules.length - kept) b = some closed) (kind : TokenKind)
    (opens : List Rule) (next : State) :
    b.move (s.move kind kept opens next) = some (opens.foldl Builder.start closed) := by
  change (closeMany (s.rules.length - kept) b).map _ = _
  rw [h]
  rfl

/-- A transition that closes all but the feature. -/
theorem move_of_feature? {d : Draft Leaf} {f : Tree.Feature Leaf} (h : d.feature? = some f)
    (hread : WellRead d.lines) (heven : d.Even) (kind : TokenKind) (opens : List Rule)
    (next : State) (pending : List Comment) :
    (d.builder pending).move (d.state.move kind 1 opens next) =
      some (opens.foldl Builder.start ⟨[], [⟨.feature, f.nodes⟩, ⟨.document, []⟩], pending⟩) := by
  have hclose := closeMany_feature? h hread heven 0 pending
  rw [Nat.zero_add] at hclose
  exact move_of_closeMany hclose kind opens next

/-- A transition that closes all but the outline. -/
theorem move_of_outline? {d : Draft Leaf} {f : Tree.Feature Leaf} {o : Tree.Outline Leaf}
    (h : d.outline? = some (f, o)) (hread : WellRead d.lines) (heven : d.Even)
    (kind : TokenKind) (opens : List Rule) (next : State) (pending : List Comment) :
    (d.builder pending).move (d.state.move kind 3 opens next) =
      some (opens.foldl Builder.start ⟨[], outlineScopes f o ++ [⟨.document, []⟩], pending⟩) := by
  have hclose := closeMany_outline? h hread heven 0 pending
  rw [Nat.zero_add] at hclose
  exact move_of_closeMany hclose kind opens next

theorem builds_pushTags {d d' : Draft Leaf} {ahead : Bool} {leaf : Leaf}
    (h : d.pushTags ahead leaf = some d') (hread : WellRead d.lines) (heven : d.Even)
    (pending : List Comment) :
    Builds (d.builder pending) d.state .tagLine ahead leaf (d'.builder pending) := by
  unfold pushTags at h
  split at h
  case h_6 =>
    have hfeature : (d.feature?.map fun f => definitionTags f leaf []) = some d' →
        (d.outline?.isSome && ahead) = false →
        Builds (d.builder pending) d.state .tagLine ahead leaf (d'.builder pending) := by
      intro h hfalse
      obtain ⟨f, hf, rfl⟩ := Option.map_eq_some_iff.mp h
      have hselect := (select_of_feature? hf ahead).2.2.2
      rw [hfalse] at hselect
      exact ⟨_, hselect, _, move_of_feature? hf hread heven _ _ _ pending, rfl⟩
    rcases ho : d.outline? with _ | ⟨f, o⟩
    · rw [ho] at h
      exact hfeature h (by rw [ho]; rfl)
    · rw [ho] at h
      cases ahead with
      | false => exact hfeature h (by rw [ho]; rfl)
      | true =>
          cases h
          have hselect := (select_of_feature? (feature?_of_outline? ho) true).2.2.2
          rw [ho] at hselect
          exact ⟨_, hselect, _, move_of_outline? ho hread heven .tagLine
            [.examplesDefinition, .tags] .examplesTags pending, rfl⟩
  case h_3 lang first rest =>
    cases h
    simp only [builder, scopes, inner, nodesOf_append_singleton]
    exact ⟨_, rfl, _, rfl, rfl⟩
  case h_4 | h_5 =>
    cases h
    simp only [builder, scopes, inner, nodesOf_append_singleton]
    exact ⟨_, rfl, _, rfl, rfl⟩
  all_goals
    cases h
    exact ⟨_, rfl, _, rfl, rfl⟩

theorem builds_pushExamples {d d' : Draft Leaf} {leaf : Leaf}
    (h : d.pushExamples leaf = some d') (hread : WellRead d.lines) (heven : d.Even)
    (ahead : Bool) (pending : List Comment) :
    Builds (d.builder pending) d.state .examplesLine ahead leaf (d'.builder pending) := by
  unfold pushExamples at h
  split at h
  · cases h
    exact ⟨_, rfl, _, rfl, rfl⟩
  · obtain ⟨⟨f, o⟩, ho, rfl⟩ := Option.map_eq_some_iff.mp h
    exact ⟨_, select_of_outline? ho ahead, _, move_of_outline? ho hread heven _ _ _ pending, rfl⟩

/-- The first row below a title line of examples closes its description. -/
theorem builds_firstRow (f : Tree.Feature Leaf) (o : Tree.Outline Leaf) (tags : List Leaf)
    (heading : Heading Leaf) (leaf : Leaf) (ahead : Bool) (pending : List Comment) :
    Builds ((examples f o tags heading).builder pending) (.header .examples heading.place)
      .tableRow ahead leaf ((examplesTable f o tags heading.tree leaf []).builder pending) := by
  have hselect : (State.header .examples heading.place).select .tableRow ahead =
      some ((State.header .examples heading.place).contents .examples) := by
    cases heading <;> rfl
  have hclose := heading.closeMany_depth 0
    (⟨.examplesDefinition, tagNodes tags⟩ :: outlineScopes f o ++ [⟨.document, []⟩]) pending
    .examples []
  have hlength : (State.header .examples heading.place).rules.length -
      Block.examples.rules.length = 0 + heading.depth := by
    rw [heading.length_rules]
    omega
  refine ⟨_, hselect, Builder.start ⟨[], ⟨.examples, heading.tree.nodes⟩ ::
    (⟨.examplesDefinition, tagNodes tags⟩ :: outlineScopes f o ++ [⟨.document, []⟩]),
    pending⟩ .examplesTable, ?_, rfl⟩
  change (closeMany ((State.header .examples heading.place).rules.length -
    Block.examples.rules.length) _).map _ = _
  rw [hlength, builder, scopes, inner, List.append_assoc]
  exact congrArg (Option.map fun b => Builder.start b .examplesTable) hclose

theorem builds_pushInside {d d' : Draft Leaf} {kind : TokenKind} {leaf : Leaf}
    (hkind : kind ∈ [.empty, .comment, .stepLine, .docStringSeparator, .tableRow, .other])
    (h : d.pushInside kind leaf = some d') (hread : WellRead d.lines)
    (heven : kind.endsTable → d.Even) (ahead : Bool) (pending : List Comment) :
    Builds (d.builder pending) d.state kind ahead leaf (d'.builder pending) := by
  simp only [List.mem_cons, List.not_mem_nil, or_false] at hkind
  cases d with
  | start | language =>
      rcases hkind with rfl | rfl | rfl | rfl | rfl | rfl <;> cases h <;>
        exact ⟨_, rfl, _, rfl, rfl⟩
  | featureTags | definitionTags | examplesTags =>
      rcases hkind with rfl | rfl | rfl | rfl | rfl | rfl <;> cases h <;>
        exact ⟨_, rfl, _, rfl, rfl⟩
  | examplesTable =>
      rcases hkind with rfl | rfl | rfl | rfl | rfl | rfl <;> cases h <;>
        simp only [builder, scopes, inner, nodesOf_append_singleton] <;>
        exact ⟨_, rfl, _, rfl, rfl⟩
  | finished => cases h
  | feature lang tags heading =>
      obtain ⟨h', hh', rfl⟩ := Option.map_eq_some_iff.mp h
      simp only [builder, scopes, inner, List.append_assoc]
      exact Heading.builds_push hh' .feature ahead _ _ _ pending
  | background header b =>
      obtain ⟨b', hb', rfl⟩ := Option.map_eq_some_iff.mp h
      simp only [lines, WellRead.append_iff] at hread
      simp only [builder, scopes, inner, List.append_assoc]
      exact Body.builds_push hb' hread.2 heven .background ahead _ _ pending
  | scenario f tags b =>
      obtain ⟨b', hb', rfl⟩ := Option.map_eq_some_iff.mp h
      simp only [lines, WellRead.append_iff] at hread
      simp only [builder, scopes, inner, List.append_assoc]
      exact Body.builds_push hb' hread.2 heven .scenario ahead _ _ pending
  | outline f tags b =>
      obtain ⟨b', hb', rfl⟩ := Option.map_eq_some_iff.mp h
      simp only [lines, WellRead.append_iff] at hread
      simp only [builder, scopes, inner, List.append_assoc]
      exact Body.builds_push hb' hread.2 heven .outline ahead _ _ pending
  | examples f o tags heading =>
      have hheading : ∀ {kind}, (heading.push kind leaf).map (examples f o tags) = some d' →
          Builds ((examples f o tags heading).builder pending)
            (examples f o tags heading).state kind ahead leaf (d'.builder pending) := by
        intro kind h
        obtain ⟨h', hh', rfl⟩ := Option.map_eq_some_iff.mp h
        simp only [builder, scopes, inner, List.append_assoc]
        exact Heading.builds_push hh' .examples ahead _ _ _ pending
      rcases hkind with rfl | rfl | rfl | rfl | rfl | rfl
      · exact hheading h
      · exact hheading h
      · exact hheading h
      · exact hheading h
      · cases h
        exact builds_firstRow f o tags heading leaf ahead pending
      · exact hheading h

/-- A line leads from the builder of a draft to the builder of the draft behind
the line. -/
theorem builds_push {d d' : Draft Leaf} {kind : TokenKind} {ahead : Bool} {leaf : Leaf}
    (h : d.push kind ahead leaf = some d') (hread : WellRead d.lines)
    (heven : kind.endsTable → d.Even) (pending : List Comment) :
    Builds (d.builder pending) d.state kind ahead leaf (d'.builder pending) := by
  cases kind with
  | eof =>
      obtain ⟨document, hdocument, rfl⟩ := Option.map_eq_some_iff.mp h
      exact builds_eof hdocument hread (heven rfl) ahead leaf pending
  | language =>
      cases d with
      | start =>
          cases h
          exact ⟨_, rfl, _, rfl, rfl⟩
      | _ => cases h
  | tagLine => exact builds_pushTags h hread (heven rfl) pending
  | featureLine =>
      cases d with
      | start | language | featureTags =>
          cases h
          exact ⟨_, rfl, _, rfl, rfl⟩
      | _ => cases h
  | backgroundLine =>
      cases d with
      | feature lang tags heading =>
          cases h
          have hselect : (State.header .feature heading.place).select .backgroundLine ahead =
              some ((State.header .feature heading.place).contents .feature) := by
            cases heading <;> rfl
          exact ⟨_, hselect, _, move_of_feature? (d := feature lang tags heading) rfl hread
            (heven rfl) _ _ _ pending, rfl⟩
      | _ => cases h
  | scenarioLine =>
      simp only [push, pushDefinition] at h
      split at h
      · cases h
        exact ⟨_, rfl, _, rfl, rfl⟩
      · obtain ⟨f, hf, rfl⟩ := Option.map_eq_some_iff.mp h
        exact ⟨_, (select_of_feature? hf ahead).2.1, _,
          move_of_feature? hf hread (heven rfl) _ _ _ pending, rfl⟩
  | scenarioOutlineLine =>
      simp only [push, pushDefinition] at h
      split at h
      · cases h
        exact ⟨_, rfl, _, rfl, rfl⟩
      · obtain ⟨f, hf, rfl⟩ := Option.map_eq_some_iff.mp h
        exact ⟨_, (select_of_feature? hf ahead).2.2.1, _,
          move_of_feature? hf hread (heven rfl) _ _ _ pending, rfl⟩
  | examplesLine => exact builds_pushExamples h hread (heven rfl) ahead pending
  | empty | comment | stepLine | docStringSeparator | tableRow | other =>
      exact builds_pushInside (by simp) h hread heven ahead pending

/-! ### Uneven tables -/

theorem unevenError?_of_not_evenRows {first : Leaf} {rest : List Leaf}
    (h : ¬EvenRows first rest) :
    ∃ e, unevenError? ((first :: rest).map Leaf.row) = some e := by
  simp only [EvenRows, not_forall] at h
  obtain ⟨row, hrow, hne⟩ := h
  have hsome : ((rest.map Leaf.row).find? fun r =>
      r.cells.length != first.row.cells.length).isSome := by
    rw [List.find?_isSome]
    refine ⟨row.row, List.mem_map_of_mem hrow, ?_⟩
    simpa [Leaf.row] using hne
  obtain ⟨found, hfound⟩ := Option.isSome_iff_exists.mp hsome
  simp only [List.map_cons, unevenError?, hfound]
  exact ⟨_, rfl⟩

theorem closeMany_succ_of_error {rule : Rule} {children : List Node} {e : SyntaxError}
    (h : Fold.node? rule children = .error e) (n : Nat) (outer : List Scope)
    (pending : List Comment) :
    closeMany (n + 1) ⟨[], ⟨rule, children⟩ :: outer, pending⟩ = none := by
  rw [closeMany, close]
  simp only [h]

theorem exists_closes_of_steps {block : StepBlock} {kind : TokenKind} (hkind : kind.endsTable)
    {ahead : Bool} {t : Transition}
    (ht : (State.steps block .dataTable).select kind ahead = some t) :
    ∃ n, t.closes = n + 1 := by
  cases block <;> cases kind <;> cases hkind <;> cases ahead <;> cases ht <;> exact ⟨_, rfl⟩

theorem exists_closes_of_examplesTable {kind : TokenKind} (hkind : kind.endsTable)
    {ahead : Bool} {t : Transition} (ht : State.examplesTable.select kind ahead = some t) :
    ∃ n, t.closes = n + 1 := by
  cases kind <;> cases hkind <;> cases ahead <;> cases ht <;> exact ⟨_, rfl⟩

theorem Body.move_of_not_even {b : Body Leaf} (h : ¬b.Even) {titleKind : TokenKind}
    (hread : WellRead (b.lines titleKind)) {block : StepBlock} {kind : TokenKind}
    (hkind : kind.endsTable) {ahead : Bool} {t : Transition}
    (ht : (b.state block).select kind ahead = some t) (rule : Rule) (outer : List Scope)
    (pending : List Comment) : move ⟨[], b.scopes rule ++ outer, pending⟩ t = none := by
  rcases b with _ | ⟨heading, steps, _ | ⟨line, first, rest⟩ | _ | _⟩
  case step.table =>
    simp only [lines, Step.lines, WellRead.append_iff, WellRead.cons_iff,
      WellRead.linesOf_iff] at hread
    obtain ⟨e, he⟩ := unevenError?_of_not_evenRows h
    have hnode : Fold.node? .dataTable (nodesOf (first :: rest)) = .error e := by
      simp only [Fold.node?, Fold.rows, Fold.leaves_nodesOf hread.2.2, DataTable.ofRows, he]
    obtain ⟨n, hn⟩ := exists_closes_of_steps hkind ht
    rw [move, hn]
    exact congrArg (Option.map _) (closeMany_succ_of_error hnode n _ pending)
  all_goals exact absurd trivial h

/-- A transition that ends an uneven table fails. -/
theorem move_of_not_even {d : Draft Leaf} (h : ¬d.Even) (hread : WellRead d.lines)
    {kind : TokenKind} (hkind : kind.endsTable) {ahead : Bool} {t : Transition}
    (ht : d.state.select kind ahead = some t) (pending : List Comment) :
    (d.builder pending).move t = none := by
  cases d with
  | background header b =>
      simp only [lines, WellRead.append_iff] at hread
      rw [builder, scopes, inner, List.append_assoc]
      exact Body.move_of_not_even h hread.2 hkind ht _ _ pending
  | scenario f tags b =>
      simp only [lines, WellRead.append_iff] at hread
      rw [builder, scopes, inner, List.append_assoc]
      exact Body.move_of_not_even h hread.2 hkind ht _ _ pending
  | outline f tags b =>
      simp only [lines, WellRead.append_iff] at hread
      rw [builder, scopes, inner, List.append_assoc]
      exact Body.move_of_not_even h hread.2 hkind ht _ _ pending
  | examplesTable f o tags heading first rest =>
      simp only [lines, Tree.Examples.lines, WellRead.append_iff, WellRead.linesOf_iff] at hread
      obtain ⟨e, he⟩ := unevenError?_of_not_evenRows h
      have hnode : Fold.node? .examplesTable (nodesOf (first :: rest)) = .error e := by
        simp only [Fold.node?, Fold.rows, Fold.leaves_nodesOf hread.2.2, he]
      obtain ⟨n, hn⟩ := exists_closes_of_examplesTable hkind ht
      rw [move, hn]
      exact congrArg (Option.map _) (closeMany_succ_of_error hnode n _ pending)
  | start | language | featureTags | feature | definitionTags | examplesTags | examples
  | finished => exact absurd trivial h

end Draft
end Gherkin
