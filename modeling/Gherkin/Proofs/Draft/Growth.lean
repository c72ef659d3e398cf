import Gherkin.Proofs.Draft.Moves

/-!
# What drafts grow into

Reading on never takes back what a draft holds.  The definitions that have ended
stay as they are, and the definition that is being read keeps its tags, its
title line and the examples that it has.
-/

namespace Gherkin

namespace Tree

variable {α : Type}

/-- The feature with further definitions. -/
def Feature.addAll (f : Feature α) (definitions : List (Definition α)) : Feature α :=
  { f with definitions := f.definitions ++ definitions }

/-- The outline with further examples. -/
def Outline.addAll (o : Outline α) (examples : List (Examples α)) : Outline α :=
  { o with examples := o.examples ++ examples }

theorem Feature.addAll_nil (f : Feature α) : f.addAll [] = f := by
  rw [addAll, List.append_nil]

theorem Feature.addAll_add (f : Feature α) (d : Definition α) (definitions : List (Definition α)) :
    (f.add d).addAll definitions = f.addAll (d :: definitions) := by
  rw [addAll, addAll, add, List.append_assoc, List.singleton_append]

theorem Outline.addAll_add (o : Outline α) (e : Examples α) (examples : List (Examples α)) :
    (o.add e).addAll examples = o.addAll (e :: examples) := by
  rw [addAll, addAll, add, List.append_assoc, List.singleton_append]

end Tree

namespace Draft

variable {α : Type}

/-- The title line of a block. -/
def Body.title : Body α → α
  | heading h => h.tree.line
  | step h _ _ => h.line

/-- The document holds what the draft holds of definitions: those that have ended,
and behind them the one that is being read. -/
def GrowsInto (d : Draft α) (document : Option (Tree.Feature α)) : Prop :=
  match d with
  | start | language _ | featureTags _ _ _ | feature _ _ _ | background _ _ => True
  | definitionTags f _ _ => ∃ definitions, document = some (f.addAll definitions)
  | scenario f tags b =>
    ∃ body definitions, document = some (f.addAll (.scenario tags body :: definitions)) ∧
      body.heading.line = b.title
  | outline f tags b =>
    ∃ body examples definitions,
      document = some (f.addAll (.outline ⟨tags, body, examples⟩ :: definitions)) ∧
        body.heading.line = b.title
  | examplesTags f o _ _ =>
    ∃ examples definitions,
      document = some (f.addAll (.outline (o.addAll examples) :: definitions))
  | examples f o tags h =>
    ∃ e examples definitions,
      document = some (f.addAll (.outline (o.addAll (e :: examples)) :: definitions)) ∧
        e.tags = tags ∧ e.heading.line = h.tree.line
  | examplesTable f o tags h _ _ =>
    ∃ e examples definitions,
      document = some (f.addAll (.outline (o.addAll (e :: examples)) :: definitions)) ∧
        e.tags = tags ∧ e.heading.line = h.line
  | finished t => document = t

/-! ### What can end -/

theorem Body.title_of_tree? {b : Body α} {t : Tree.Body α} (h : b.tree? = some t) :
    t.heading.line = b.title := by
  cases b with
  | heading heading =>
      obtain rfl := Option.some.inj h
      rfl
  | step heading steps last =>
      obtain ⟨s, -, rfl⟩ := Option.map_eq_some_iff.mp h
      rfl

/-- A feature that can end here holds what the draft holds, and so does the feature with
further definitions. -/
theorem growsInto_of_feature? {d : Draft α} {f : Tree.Feature α} (h : d.feature? = some f)
    (definitions : List (Tree.Definition α)) : d.GrowsInto (some (f.addAll definitions)) := by
  cases d with
  | feature | background => trivial
  | scenario f tags b =>
      obtain ⟨t, ht, rfl⟩ := Option.map_eq_some_iff.mp h
      rw [Tree.Feature.addAll_add]
      exact ⟨t, definitions, rfl, Body.title_of_tree? ht⟩
  | outline f tags b =>
      obtain ⟨t, ht, rfl⟩ := Option.map_eq_some_iff.mp h
      rw [Tree.Feature.addAll_add]
      exact ⟨t, [], definitions, rfl, Body.title_of_tree? ht⟩
  | examples f o tags heading =>
      obtain rfl := Option.some.inj h
      rw [Tree.Feature.addAll_add]
      exact ⟨⟨tags, heading.tree, []⟩, [], definitions, rfl, rfl, rfl⟩
  | examplesTable f o tags heading first rest =>
      obtain rfl := Option.some.inj h
      rw [Tree.Feature.addAll_add]
      exact ⟨⟨tags, heading, first :: rest⟩, [], definitions, rfl, rfl, rfl⟩
  | start | language | featureTags | definitionTags | examplesTags | finished => cases h

/-- An outline in which more examples may follow holds what the draft holds, also with
these examples. -/
theorem growsInto_of_outline? {d : Draft α} {f : Tree.Feature α} {o : Tree.Outline α}
    (h : d.outline? = some (f, o)) (examples : List (Tree.Examples α))
    (definitions : List (Tree.Definition α)) :
    d.GrowsInto (some (f.addAll (.outline (o.addAll examples) :: definitions))) := by
  cases d with
  | outline f tags b =>
      obtain ⟨t, ht, hfo⟩ := Option.map_eq_some_iff.mp h
      cases hfo
      exact ⟨t, examples, definitions, rfl, Body.title_of_tree? ht⟩
  | examples f o tags heading =>
      cases Option.some.inj h
      rw [Tree.Outline.addAll_add]
      exact ⟨⟨tags, heading.tree, []⟩, examples, definitions, rfl, rfl, rfl⟩
  | examplesTable f o tags heading first rest =>
      cases Option.some.inj h
      rw [Tree.Outline.addAll_add]
      exact ⟨⟨tags, heading, first :: rest⟩, examples, definitions, rfl, rfl, rfl⟩
  | _ => cases h

/-! ### A line takes nothing back -/

theorem Heading.line_push {h h' : Heading α} {kind : TokenKind} {a : α}
    (hpush : h.push kind a = some h') : h'.tree.line = h.tree.line := by
  cases h <;> cases kind <;> cases hpush <;> rfl

theorem Body.title_push {b b' : Body α} {kind : TokenKind} {a : α}
    (hpush : b.push kind a = some b') : b'.title = b.title := by
  unfold push at hpush
  split at hpush
  · obtain ⟨t, ht, rfl⟩ := Option.map_eq_some_iff.mp hpush
    exact title_of_tree? ht
  · split at hpush
    · obtain ⟨h', hh', rfl⟩ := Option.map_eq_some_iff.mp hpush
      exact Heading.line_push hh'
    · obtain ⟨s', -, rfl⟩ := Option.map_eq_some_iff.mp hpush
      rfl

variable {d d' : Draft α} {document : Option (Tree.Feature α)} {a : α}

theorem growsInto_of_pushTags {ahead : Bool} (h : d.pushTags ahead a = some d')
    (hgrows : d'.GrowsInto document) : d.GrowsInto document := by
  unfold pushTags at h
  split at h
  case h_6 =>
    split at h
    · next f o houtline =>
        obtain rfl := Option.some.inj h
        obtain ⟨examples, definitions, rfl⟩ := hgrows
        exact growsInto_of_outline? houtline examples definitions
    · obtain ⟨f, hf, rfl⟩ := Option.map_eq_some_iff.mp h
      obtain ⟨definitions, rfl⟩ := hgrows
      exact growsInto_of_feature? hf definitions
  all_goals
    obtain rfl := Option.some.inj h
    exact hgrows

/-- The title line of a definition ends the definition in front of it. -/
theorem growsInto_of_pushDefinition {definition : Tree.Feature α → List α → Body α → Draft α}
    (hdefinition : ∀ f tags b, (definition f tags b).GrowsInto document →
      ∃ definitions, document = some (f.addAll definitions))
    (h : d.pushDefinition definition a = some d') (hgrows : d'.GrowsInto document) :
    d.GrowsInto document := by
  unfold pushDefinition at h
  split at h
  · obtain rfl := Option.some.inj h
    exact hdefinition _ _ _ hgrows
  · obtain ⟨f, hf, rfl⟩ := Option.map_eq_some_iff.mp h
    obtain ⟨definitions, rfl⟩ := hdefinition _ _ _ hgrows
    exact growsInto_of_feature? hf definitions

theorem growsInto_of_pushExamples (h : d.pushExamples a = some d')
    (hgrows : d'.GrowsInto document) : d.GrowsInto document := by
  unfold pushExamples at h
  split at h
  · obtain rfl := Option.some.inj h
    obtain ⟨e, examples, definitions, rfl, -, -⟩ := hgrows
    exact ⟨e :: examples, definitions, rfl⟩
  · obtain ⟨⟨f, o⟩, houtline, rfl⟩ := Option.map_eq_some_iff.mp h
    obtain ⟨e, examples, definitions, rfl, -, -⟩ := hgrows
    exact growsInto_of_outline? houtline (e :: examples) definitions

theorem growsInto_of_pushInside {kind : TokenKind} (h : d.pushInside kind a = some d')
    (hgrows : d'.GrowsInto document) : d.GrowsInto document := by
  unfold pushInside at h
  split at h
  · trivial
  · trivial
  · obtain ⟨b', hb', rfl⟩ := Option.map_eq_some_iff.mp h
    obtain ⟨body, definitions, hdocument, htitle⟩ := hgrows
    exact ⟨body, definitions, hdocument, htitle.trans (Body.title_push hb')⟩
  · obtain ⟨b', hb', rfl⟩ := Option.map_eq_some_iff.mp h
    obtain ⟨body, examples, definitions, hdocument, htitle⟩ := hgrows
    exact ⟨body, examples, definitions, hdocument, htitle.trans (Body.title_push hb')⟩
  · obtain rfl := Option.some.inj h
    exact hgrows
  · obtain ⟨h', hh', rfl⟩ := Option.map_eq_some_iff.mp h
    obtain ⟨e, examples, definitions, hdocument, htags, hline⟩ := hgrows
    exact ⟨e, examples, definitions, hdocument, htags, hline.trans (Heading.line_push hh')⟩
  · obtain rfl := Option.some.inj h
    exact hgrows
  · cases h
  · obtain rfl := Option.some.inj h
    exact hgrows
  · obtain rfl := Option.some.inj h
    exact hgrows
  · cases h

/-- What the draft behind a line grows into holds also what the draft in front of the line
holds. -/
theorem growsInto_of_push {kind : TokenKind} {ahead : Bool} (h : d.push kind ahead a = some d')
    (hgrows : d'.GrowsInto document) : d.GrowsInto document := by
  cases kind with
  | eof =>
      obtain ⟨finished, hfinished, rfl⟩ := Option.map_eq_some_iff.mp h
      obtain rfl : document = finished := hgrows
      unfold document? at hfinished
      split at hfinished
      · trivial
      · obtain ⟨f, hf, rfl⟩ := Option.map_eq_some_iff.mp hfinished
        rw [← f.addAll_nil]
        exact growsInto_of_feature? hf []
  | language =>
      cases d with
      | start => trivial
      | _ => cases h
  | tagLine => exact growsInto_of_pushTags h hgrows
  | featureLine =>
      cases d with
      | start | language | featureTags => trivial
      | _ => cases h
  | backgroundLine =>
      cases d with
      | feature => trivial
      | _ => cases h
  | scenarioLine =>
      refine growsInto_of_pushDefinition (fun f tags b hscenario => ?_) h hgrows
      obtain ⟨body, definitions, hdocument, -⟩ := hscenario
      exact ⟨_, hdocument⟩
  | scenarioOutlineLine =>
      refine growsInto_of_pushDefinition (fun f tags b houtline => ?_) h hgrows
      obtain ⟨body, examples, definitions, hdocument, -⟩ := houtline
      exact ⟨_, hdocument⟩
  | examplesLine => exact growsInto_of_pushExamples h hgrows
  | empty | comment | stepLine | docStringSeparator | tableRow | other =>
      exact growsInto_of_pushInside h hgrows

end Draft
end Gherkin
