import Gherkin.Proofs.Draft.Basic

/-!
# The states of drafts

The table of the grammar moves from state to state exactly as lines move from
draft to draft.  What a draft has read is its lines, in order: blank lines,
comments and the end of the source add nothing, and every other line is added
once.
-/

namespace Gherkin

/-- The transition of a state for a kind of tokens, where `ahead` says whether
tags belong to examples. -/
def State.select (s : State) (kind : TokenKind) (ahead : Bool) : Option Transition :=
  s.transitions.find? fun t => t.kind = kind && (!t.lookahead || ahead)

namespace Draft

variable {α : Type}

/-- Lines move drafts as the table of the grammar moves their states.  Each
constructor is a row of the table, and each of its kinds is an entry. -/
theorem push_state (d : Draft α) (kind : TokenKind) (ahead : Bool) (a : α) :
    (d.push kind ahead a).map state =
      (d.state.select kind ahead).map Transition.next := by
  cases d with
  | start => cases kind <;> rfl
  | language => cases kind <;> rfl
  | featureTags => cases kind <;> rfl
  | definitionTags => cases kind <;> rfl
  | examplesTags => cases kind <;> rfl
  | examplesTable => cases kind <;> cases ahead <;> rfl
  | finished => cases kind <;> rfl
  | feature lang tags h =>
      rcases h with _ | _ | _ <;> cases kind <;> rfl
  | examples f o tags h =>
      rcases h with _ | _ | _ <;> cases kind <;> cases ahead <;> rfl
  | background header b =>
      rcases b with (_ | _ | _) | ⟨h, steps, _ | _ | _ | _⟩ <;> cases kind <;> rfl
  | scenario f tags b =>
      rcases b with (_ | _ | _) | ⟨h, steps, _ | _ | _ | _⟩ <;> cases kind <;> rfl
  | outline f tags b =>
      rcases b with (_ | _ | _) | ⟨h, steps, _ | _ | _ | _⟩ <;>
        cases kind <;> cases ahead <;> rfl

/-! ### The lines of what can end -/

theorem Body.lines_of_tree? {b : Body α} {t : Tree.Body α} (h : b.tree? = some t)
    (kind : TokenKind) : t.lines kind = b.lines kind := by
  rcases b with heading | ⟨heading, steps, last⟩
  · obtain rfl := Option.some.inj h
    simp [Tree.Body.lines, lines]
  · obtain ⟨s, hs, rfl⟩ := Option.map_eq_some_iff.mp h
    rcases last with _ | _ | _ | _ <;> cases hs <;>
      simp [Tree.Body.lines, lines, Step.lines, Tree.Step.lines, Tree.Argument.lines]

theorem lines_of_feature? {d : Draft α} {f : Tree.Feature α} (h : d.feature? = some f) :
    f.lines = d.lines := by
  cases d with
  | feature lang tags heading =>
      obtain rfl := Option.some.inj h
      simp [Tree.Feature.lines, lines]
  | background header b =>
      obtain ⟨t, ht, rfl⟩ := Option.map_eq_some_iff.mp h
      simp [Tree.Feature.lines, lines, Body.lines_of_tree? ht]
  | scenario f tags b =>
      obtain ⟨t, ht, rfl⟩ := Option.map_eq_some_iff.mp h
      simp [Tree.Definition.lines, lines, Body.lines_of_tree? ht]
  | outline f tags b =>
      obtain ⟨t, ht, rfl⟩ := Option.map_eq_some_iff.mp h
      simp [Tree.Definition.lines, Tree.Outline.lines, lines, Body.lines_of_tree? ht]
  | examples f o tags heading =>
      obtain rfl := Option.some.inj h
      simp [Tree.Definition.lines, lines]
  | examplesTable f o tags heading first rest =>
      obtain rfl := Option.some.inj h
      simp [Tree.Definition.lines, lines]
  | start | language | featureTags | definitionTags | examplesTags | finished => cases h

theorem lines_of_outline? {d : Draft α} {f : Tree.Feature α} {o : Tree.Outline α}
    (h : d.outline? = some (f, o)) : f.lines ++ o.lines = d.lines := by
  cases d with
  | outline f tags b =>
      obtain ⟨t, ht, hfo⟩ := Option.map_eq_some_iff.mp h
      cases hfo
      simp [Tree.Outline.lines, lines, Body.lines_of_tree? ht]
  | examples f o tags heading =>
      cases Option.some.inj h
      simp [lines]
  | examplesTable f o tags heading first rest =>
      cases Option.some.inj h
      simp [lines]
  | start | language | featureTags | feature | background | definitionTags | scenario
  | examplesTags | finished => cases h

/-- An outline ends where examples may follow. -/
theorem feature?_of_outline? {d : Draft α} {f : Tree.Feature α} {o : Tree.Outline α}
    (h : d.outline? = some (f, o)) : d.feature? = some (f.add (.outline o)) := by
  cases d with
  | outline f tags b =>
      obtain ⟨t, ht, hfo⟩ := Option.map_eq_some_iff.mp h
      cases hfo
      rw [feature?, ht, Option.map_some]
  | examples f o tags heading =>
      cases h
      rfl
  | examplesTable f o tags heading first rest =>
      cases h
      rfl
  | _ => cases h

theorem lines_of_document? {d : Draft α} {document : Option (Tree.Feature α)}
    (h : d.document? = some document) : Tree.lines document = d.lines := by
  unfold document? at h
  split at h
  · obtain rfl := Option.some.inj h
    rfl
  · obtain ⟨f, hf, rfl⟩ := Option.map_eq_some_iff.mp h
    exact lines_of_feature? hf

/-! ### A line adds itself -/

theorem Heading.lines_push {h h' : Heading α} {kind : TokenKind} {a : α}
    (hpush : h.push kind a = some h') (titleKind : TokenKind) :
    h'.tree.lines titleKind = h.tree.lines titleKind ++ Tree.lineOf kind a := by
  rcases h with _ | _ | _ <;> cases kind <;> cases hpush <;>
    simp [tree, Tree.Heading.lines, Tree.lineOf, TokenKind.isTerminal]

theorem Step.lines_push {s s' : Step α} {kind : TokenKind} {a : α}
    (hpush : s.push kind a = some s') : s'.lines = s.lines ++ Tree.lineOf kind a := by
  rcases s with _ | _ | _ | _ <;> cases kind <;> cases hpush <;>
    simp [lines, Tree.Argument.lines, Tree.lineOf, TokenKind.isTerminal]

theorem Body.lines_push {b b' : Body α} {kind : TokenKind} {a : α}
    (hpush : b.push kind a = some b') (titleKind : TokenKind) :
    b'.lines titleKind = b.lines titleKind ++ Tree.lineOf kind a := by
  unfold push at hpush
  split at hpush
  · next hkind =>
      obtain ⟨t, ht, rfl⟩ := Option.map_eq_some_iff.mp hpush
      rw [← lines_of_tree? ht, hkind]
      rfl
  · split at hpush
    · obtain ⟨h', hh', rfl⟩ := Option.map_eq_some_iff.mp hpush
      exact Heading.lines_push hh' titleKind
    · obtain ⟨s', hs', rfl⟩ := Option.map_eq_some_iff.mp hpush
      simp [lines, Step.lines_push hs']

theorem lines_pushTags {d d' : Draft α} {ahead : Bool} {a : α}
    (h : d.pushTags ahead a = some d') : d'.lines = d.lines ++ [(.tagLine, a)] := by
  unfold pushTags at h
  split at h
  case h_6 =>
    split at h
    · next f o ho =>
        obtain rfl := Option.some.inj h
        rw [← lines_of_outline? ho]
        simp [lines]
    · obtain ⟨f, hf, rfl⟩ := Option.map_eq_some_iff.mp h
      rw [← lines_of_feature? hf]
      simp [lines]
  all_goals
    obtain rfl := Option.some.inj h
    simp [lines]

theorem lines_pushInside {d d' : Draft α} {kind : TokenKind} {a : α}
    (h : d.pushInside kind a = some d') : d'.lines = d.lines ++ Tree.lineOf kind a := by
  unfold pushInside at h
  split at h
  · obtain ⟨h', hh', rfl⟩ := Option.map_eq_some_iff.mp h
    simp [lines, Tree.Header.lines, Heading.lines_push hh']
  · obtain ⟨b', hb', rfl⟩ := Option.map_eq_some_iff.mp h
    simp [lines, Body.lines_push hb']
  · obtain ⟨b', hb', rfl⟩ := Option.map_eq_some_iff.mp h
    simp [lines, Body.lines_push hb']
  · obtain ⟨b', hb', rfl⟩ := Option.map_eq_some_iff.mp h
    simp [lines, Body.lines_push hb']
  · obtain rfl := Option.some.inj h
    simp [lines, Tree.Examples.lines, Tree.lineOf, TokenKind.isTerminal]
  · obtain ⟨h', hh', rfl⟩ := Option.map_eq_some_iff.mp h
    simp [lines, Tree.Examples.lines, Heading.lines_push hh']
  · obtain rfl := Option.some.inj h
    simp [lines, Tree.Examples.lines, Tree.lineOf, TokenKind.isTerminal]
  · cases h
  · obtain rfl := Option.some.inj h
    simp [Tree.lineOf, TokenKind.isTerminal]
  · obtain rfl := Option.some.inj h
    simp [Tree.lineOf, TokenKind.isTerminal]
  · cases h

theorem lines_push {d d' : Draft α} {kind : TokenKind} {ahead : Bool} {a : α}
    (h : d.push kind ahead a = some d') : d'.lines = d.lines ++ Tree.lineOf kind a := by
  cases kind with
  | eof =>
      obtain ⟨document, hdocument, rfl⟩ := Option.map_eq_some_iff.mp h
      simp [lines, lines_of_document? hdocument, Tree.lineOf, TokenKind.isTerminal]
  | language =>
      cases d with
      | start =>
          obtain rfl := Option.some.inj h
          rfl
      | _ => cases h
  | tagLine => exact lines_pushTags h
  | featureLine =>
      cases d with
      | start | language | featureTags =>
          obtain rfl := Option.some.inj h
          simp [lines, Tree.Header.lines, Tree.Heading.lines, Heading.tree, Tree.lineOf,
            TokenKind.isTerminal]
      | _ => cases h
  | backgroundLine =>
      cases d with
      | feature =>
          obtain rfl := Option.some.inj h
          rfl
      | _ => cases h
  | scenarioLine | scenarioOutlineLine =>
      simp only [push, pushDefinition] at h
      split at h
      · obtain rfl := Option.some.inj h
        simp [lines, Body.lines, Tree.Heading.lines, Heading.tree, Tree.lineOf,
          TokenKind.isTerminal]
      · obtain ⟨f, hf, rfl⟩ := Option.map_eq_some_iff.mp h
        rw [← lines_of_feature? hf]
        simp [lines, Body.lines, Tree.Heading.lines, Heading.tree, Tree.lineOf,
          TokenKind.isTerminal]
  | examplesLine =>
      simp only [push, pushExamples] at h
      split at h
      · obtain rfl := Option.some.inj h
        simp [lines, Tree.Examples.lines, Tree.Heading.lines, Heading.tree, Tree.lineOf,
          TokenKind.isTerminal]
      · obtain ⟨⟨f, o⟩, ho, rfl⟩ := Option.map_eq_some_iff.mp h
        rw [← lines_of_outline? ho]
        simp [lines, Tree.Examples.lines, Tree.Heading.lines, Heading.tree, Tree.lineOf,
          TokenKind.isTerminal]
  | empty | comment | stepLine | docStringSeparator | tableRow | other =>
      exact lines_pushInside h

end Draft
end Gherkin
