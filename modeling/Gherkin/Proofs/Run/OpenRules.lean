import Gherkin.Proofs.Parser.Conservation
import Gherkin.Proofs.Run.Steps

/-!
# The open rules of a run

Every state has a stack of rules.  In front of every token the open rules of a
run are the stack of its state, whatever lines have been skipped and whatever
tables have been dropped.  So a transition closes the rules that it means to
close, each inside the rule around it, and a run that ends without errors has
closed one document.
-/

namespace Gherkin

/-- The rules that a form names. -/
def Form.rules : Form → List Rule
  | .kind _ => []
  | .rule r => [r]
  | .seq a b => a.rules ++ b.rules
  | .either a b => a.rules ++ b.rules
  | .option a => a.rules
  | .many a => a.rules

/-- A rule may be opened inside another one when the production of that one names
it. -/
def Rule.MayHold (outer inner : Rule) : Prop :=
  inner ∈ outer.production.rules

instance : DecidableRel Rule.MayHold :=
  fun outer inner => inferInstanceAs (Decidable (inner ∈ outer.production.rules))

namespace State

/-- The rules that are open in a state, with the document and what surrounds it,
outermost first. -/
def stack (s : State) : List Rule :=
  .root :: .document :: s.rules

/-- The stack of the state behind a row of examples. -/
example : examplesTable.number = 26 ∧ examplesTable.stack =
    [.root, .document, .feature, .scenarioDefinition, .scenarioOutline, .examplesDefinition,
      .examples, .examplesTable] := by
  decide

/-- Every rule of a stack may be opened inside the rule in front of it. -/
theorem isChain_stack (s : State) : s.stack.IsChain Rule.MayHold := by
  revert s
  decide

/-- A transition closes no more than the rules inside the document, and leads from
the stack of its state to that of the next state. -/
theorem stack_next {s : State} {t : Transition} (ht : t ∈ s.transitions) :
    t.closes ≤ s.rules.length ∧
      t.next.stack = s.stack.take (s.stack.length - t.closes) ++ t.opens := by
  revert s t
  decide

/-- The end of the source finishes a document. -/
theorem next_eq_finished {s : State} {t : Transition} (ht : t ∈ s.transitions)
    (hkind : t.kind = .eof) : t.next = finished := by
  revert s t
  decide

end State

namespace Builder

/-- The open rules without the root, innermost first. -/
def rules (b : Builder) : List Rule :=
  b.scopes.map Scope.rule

@[simp] theorem rules_start (b : Builder) (rule : Rule) : (b.start rule).rules = rule :: b.rules :=
  rfl

@[simp] theorem rules_add (b : Builder) (node : Node) : (b.add node).rules = b.rules := by
  obtain ⟨root, _ | ⟨scope, outer⟩, pending⟩ := b <;> rfl

/-- Closing a rule leaves the others open, also when a table is dropped. -/
@[simp] theorem rules_close (b : Builder) : b.close.1.rules = b.rules.tail := by
  obtain ⟨root, _ | ⟨scope, outer⟩, pending⟩ := b
  · rfl
  · simp only [close]
    cases Fold.node? scope.rule scope.children with
    | error e => rfl
    | ok node =>
        cases node with
        | none => rfl
        | some node => exact rules_add _ node

@[simp] theorem rules_build (b : Builder) (t : Token) : (b.build t).rules = b.rules := by
  rw [build]
  cases t.reading with
  | none => rfl
  | some reading =>
      simp only
      split
      · rfl
      · split
        · exact rules_add _ _
        · exact rules_add _ _

/-- The document that is closed last is the result. -/
theorem result?_close {b : Builder} {children : List Node}
    (h : b.scopes = [⟨.document, children⟩]) :
    b.close.1.result? = some ⟨children.findSome? Node.feature?⟩ := by
  obtain ⟨root, scopes, pending⟩ := b
  obtain rfl : scopes = [⟨.document, children⟩] := h
  simp only [close, Fold.node?, add, result?, List.reverse_append, List.reverse_singleton,
    List.singleton_append]
  rfl

end Builder

namespace Run

/-- The open rules, outermost first. -/
def openRules (r : Run) : List Rule :=
  .root :: r.builder.rules.reverse

/-! ### Closing and opening -/

theorem builder_closeRule {r : Run} (h : r.failure = none) :
    r.closeRule.builder = r.builder.close.1 := by
  rw [closeRule, if_neg (by simp [h])]
  rcases r.builder.close with ⟨b, _ | e⟩
  · rfl
  · exact builder_addError _ e

/-- Rules are closed from the innermost one outwards. -/
theorem rules_closeRules {n : Nat} {r : Run} (h : (closeRules n r).failure = none) :
    (closeRules n r).builder.rules = r.builder.rules.drop n := by
  induction n generalizing r with
  | zero => rfl
  | succ n ih =>
      have hfirst := failure_of_closeRules (r := r.closeRule) h
      rw [closeRules, ih h, builder_closeRule (failure_of_closeRule hfirst),
        Builder.rules_close, List.drop_tail]

theorem openRules_closeRules {n : Nat} {r : Run} (h : (closeRules n r).failure = none)
    (hn : n ≤ r.builder.rules.length) :
    (closeRules n r).openRules = r.openRules.take (r.openRules.length - n) := by
  have hlength : r.openRules.length - n = r.builder.rules.length - n + 1 := by
    rw [openRules, List.length_cons, List.length_reverse]
    omega
  rw [hlength, openRules, openRules, rules_closeRules h, List.reverse_drop, List.take_succ_cons]

theorem openRules_foldl_openRule (rules : List Rule) (r : Run) :
    (rules.foldl openRule r).openRules = r.openRules ++ rules := by
  induction rules generalizing r with
  | nil => exact (List.append_nil _).symm
  | cons rule rules ih =>
      rw [List.foldl_cons, ih, openRules, openRule, note, Builder.rules_start, List.reverse_cons,
        ← List.cons_append, List.append_assoc, List.singleton_append, openRules]

/-- What a transition does to the open rules, unless the run fails. -/
theorem openRules_accept {r : Run} {transition : Transition} {t : Token}
    (h : (r.accept transition t).failure = none)
    (hcloses : transition.closes ≤ r.builder.rules.length) :
    (r.accept transition t).openRules =
        r.openRules.take (r.openRules.length - transition.closes) ++ transition.opens ∧
      (r.accept transition t).state = transition.next := by
  rw [accept] at h ⊢
  by_cases hfailure : (closeRules transition.closes r).failure.isSome
  · rw [if_pos hfailure] at h
    rw [h] at hfailure
    cases hfailure
  · have hclosed : (closeRules transition.closes r).failure = none := by simpa using hfailure
    rw [if_neg hfailure, ← openRules_closeRules hclosed hcloses, ← openRules_foldl_openRule]
    refine ⟨?_, rfl⟩
    rw [openRules, openRules]
    simp only [Builder.rules_build]

/-! ### Taking a token -/

/-- Taking a token leads to the open rules of the next state, and a token that is
skipped leaves the rules as they are.  The end of the source finishes a document,
unless it is skipped. -/
theorem openRules_take {r : Run} {t : Token} (h : r.openRules = r.state.stack)
    (hfine : (r.take t).failure = none) :
    (r.take t).openRules = (r.take t).state.stack ∧
      (t.isEof = true → (r.take t).errors = [] → (r.take t).state = .finished) := by
  cases r.takes t with
  | fails chosen hchoose hfailed htake =>
      rw [htake] at hfine
      exact absurd hfine hfailed
  | skips chosen e hchoose _ htake =>
      have hchooses := chooses_of_eq hchoose
      rw [htake, openRules, builder_addError, state_addError, hchooses.state, hchooses.builder]
      exact ⟨h, fun _ herrors => absurd herrors (errors_addError_ne_nil chosen e)⟩
  | accepts chosen transition read hchoose htake =>
      have hchooses := chooses_of_eq hchoose
      obtain ⟨hmem, -, heof⟩ := hchooses.accepted transition read rfl
      obtain ⟨hcloses, hstack⟩ := State.stack_next hmem
      have hopen : chosen.openRules = r.state.stack := by
        rw [openRules, hchooses.builder, ← openRules, h]
      have hlength : transition.closes ≤ chosen.builder.rules.length := by
        have hsame := congrArg List.length hopen
        rw [openRules, State.stack, List.length_cons, List.length_reverse, List.length_cons,
          List.length_cons] at hsame
        omega
      rw [htake] at hfine ⊢
      obtain ⟨hrules, hnext⟩ := openRules_accept hfine hlength
      refine ⟨?_, fun ht _ => hnext.trans (State.next_eq_finished hmem (heof ht))⟩
      rw [hrules, hnext, hstack, hopen]

/-! ### Runs -/

/-- A run that has not failed has the open rules of its state, and behind the end of
the source, without errors, it has finished a document. -/
structure Stacked (r : Run) : Prop where
  openRules : r.failure = none → r.openRules = r.state.stack
  finished : r.failure = none → r.ended = true → r.errors = [] → r.state = .finished

theorem Stacked.step {r : Run} (h : r.Stacked) : r.step.Stacked := by
  cases r.stepping with
  | stays hover hstep => rwa [hstep]
  | unreadable fetched hover hnext hstep =>
      have hfailed := (fetched_of_eq hnext).failed
      rw [hstep]
      exact ⟨fun hfine => absurd hfine hfailed, fun hfine => absurd hfine hfailed⟩
  | takes fetched t hover hnext hstep =>
      obtain ⟨hfailure, -⟩ := failure_of_isOver_eq_false hover
      have hfetched := fetched_of_eq hnext
      have hopen : fetched.openRules = fetched.state.stack := by
        have hrules : fetched.openRules = r.openRules := by
          rw [Run.openRules, Run.openRules, hfetched.builder]
        rw [hrules, hfetched.state, h.openRules hfailure]
      rw [hstep]
      constructor
      · intro hfine
        exact (openRules_take hopen hfine).1
      · intro hfine hended herrors
        exact (openRules_take hopen hfine).2 hended herrors

theorem Stacked.steps {r : Run} (h : r.Stacked) (n : Nat) : (steps n r).Stacked :=
  steps_of_step (P := Run.Stacked) Stacked.step h n

/-! ### The end of a run -/

theorem errors_of_closeRule {r : Run} (h : r.closeRule.errors = []) : r.errors = [] := by
  have hreader : r.closeRule.reader = r.reader.closeRule := (closeRule_becomes r).reader
  have herrors : r.reader.closeRule.errors = [] := by
    rw [← hreader]
    exact h
  exact Reader.errors_closeRule herrors

/-- Behind a run without failure and errors, the document is all that is open. -/
theorem Stacked.exists_document {r : Run} (h : r.Stacked) (hover : r.isOver = true)
    (hfailure : r.failure = none) (herrors : r.errors = []) :
    ∃ children, r.builder.scopes = [⟨.document, children⟩] := by
  have hended : r.ended = true := by
    rw [isOver, hfailure] at hover
    exact hover
  have hopen := h.openRules hfailure
  rw [h.finished hfailure hended herrors] at hopen
  have hrules : r.builder.rules = [.document] :=
    List.reverse_eq_iff.mp (List.tail_eq_of_cons_eq hopen)
  obtain ⟨⟨rule, children⟩, hscopes, rfl⟩ := List.map_eq_singleton_iff.mp hrules
  exact ⟨children, hscopes⟩

/-- A run that ends without errors has closed one document, which is its result. -/
theorem result?_of_complete {r : Run} {document : Document} (h : r.Stacked)
    (hr : r.untaken ≤ r.unread + 1) (hcomplete : r.complete.outcome = .ok document) :
    r.complete.builder.result? = some document := by
  have hlast := h.steps (r.unread + 1)
  have hover := isOver_steps hr
  rw [complete] at hcomplete ⊢
  generalize steps (r.unread + 1) r = last at hcomplete hlast hover ⊢
  rw [outcome] at hcomplete
  split at hcomplete
  · cases hcomplete
  · next hclosed =>
      split at hcomplete
      · next hempty =>
          have hfailure := failure_of_closeRule hclosed
          have herrors := errors_of_closeRule (List.isEmpty_iff.mp hempty)
          obtain ⟨children, hscopes⟩ := hlast.exists_document hover hfailure herrors
          have hresult := Builder.result?_close hscopes
          rw [← builder_closeRule hfailure] at hresult
          rw [hresult] at hcomplete ⊢
          exact congrArg some (Except.ok.inj hcomplete)
      · cases hcomplete

end Run

namespace Parser

/-- A run starts with the document open and with all tokens left to take. -/
theorem stacked_run {p : Parser} {source : Source} {r : Run} (h : p.run source = .ok r) :
    r.Stacked ∧ r.untaken ≤ r.unread + 1 := by
  have hopen (matcher : Matcher) : (Reader.start p.limit matcher).builder.rules = [.document] := rfl
  obtain ⟨hreader, hended, hqueue, hscanner⟩ := run_starts h
  obtain ⟨matcher, hreads⟩ := exists_start_of_reader hreader
  have hstate : r.state = .start := congrArg Reader.state hreads
  have hbuilder : r.builder = (Reader.start p.limit matcher).builder :=
    congrArg Reader.builder hreads
  refine ⟨⟨fun _ => ?_, fun _ h => ?_⟩, ?_⟩
  · rw [Run.openRules, hbuilder, hstate, hopen]
    rfl
  · rw [hended] at h
    cases h
  · rw [Run.untaken, Run.unread, hqueue, hscanner]
    simp

/-- In front of every token the open rules are the stack of the state, which
nests as the grammar says.  So no transition closes the document or what is
around it, and each rule that it closes is the innermost one of the stack.
Behind the end of the source the document alone is open, and a run without
errors has closed it: its outcome is the result of the builder and no stand-in. -/
theorem openRules_eq_stack {p : Parser} {source : Source} {start : Run}
    (h : p.run source = .ok start) :
    (∀ n, let r := Run.steps n start
      r.failure = none →
        r.openRules = r.state.stack ∧
        r.openRules.IsChain Rule.MayHold ∧
        (∀ t ∈ r.state.transitions,
          t.closes < r.builder.scopes.length ∧
            ∀ k ≤ t.closes, (Run.closeRules k r).failure = none →
              (Run.closeRules k r).openRules =
                r.state.stack.take (r.state.stack.length - k)) ∧
        (r.state = .finished → r.openRules = [.root, .document])) ∧
      ∀ document, start.complete.outcome = .ok document →
        start.complete.builder.result? = some document := by
  obtain ⟨hstacked, huntaken⟩ := stacked_run h
  refine ⟨fun n => ?_, fun document => Run.result?_of_complete hstacked huntaken⟩
  intro r hfailure
  have hopen : r.openRules = r.state.stack := (hstacked.steps n).openRules hfailure
  have hlength : r.builder.scopes.length = r.state.rules.length + 1 := by
    have hsame := congrArg List.length hopen
    simpa [Run.openRules, Builder.rules, State.stack] using hsame
  refine ⟨hopen, ?_, fun t ht => ?_, fun hstate => ?_⟩
  · rw [hopen]
    exact r.state.isChain_stack
  · obtain ⟨hcloses, -⟩ := State.stack_next ht
    refine ⟨by omega, fun k hk hclosed => ?_⟩
    have hrules : k ≤ r.builder.rules.length := by
      rw [Builder.rules, List.length_map]
      omega
    rw [Run.openRules_closeRules hclosed hrules, hopen]
  · rw [hopen, hstate]
    rfl

/-- Behind a scenario that follows an uneven examples table. -/
theorem openRules_eq_stack_uneven :
    let source := Source.ofLines <| List.map String.toList
      ["Feature: f", "Scenario Outline: o", "@t", "Examples:", "|a|", "|b|c|", "Scenario: s"]
    ∃ start, Parser.run {} source = .ok start ∧
      (Run.steps 7 start).errors.length = 1 ∧
      (Run.steps 7 start).openRules =
        [.root, .document, .feature, .scenarioDefinition, .scenario] := by
  intro source
  have hsteps : (Parser.run {} source).toOption.any (fun start =>
      let r := Run.steps 7 start
      r.failure.isNone && r.errors.length = 1 && r.state.stack =
        [.root, .document, .feature, .scenarioDefinition, .scenario]) = true := by
    decide +kernel
  obtain ⟨start, hrun, hsteps⟩ := exists_ok_of_any hsteps
  simp only [Bool.and_eq_true, decide_eq_true_eq, Option.isNone_iff_eq_none] at hsteps
  obtain ⟨⟨hfailure, herrors⟩, hstack⟩ := hsteps
  obtain ⟨hopen, -⟩ := (openRules_eq_stack hrun).1 7 hfailure
  exact ⟨start, hrun, herrors, hopen.trans hstack⟩

end Parser
end Gherkin
