import Gherkin.Proofs.Draft.Sentences
import Gherkin.Proofs.Tree.Productions

/-!
# Sentences that states accept

The table of the grammar, run on kinds alone, accepts every sentence of the
grammar from its start.  A line that is of its own kind and of no other one but
free text is accepted by the transition for its kind, because the transition
for free text is always the last one.
-/

namespace Gherkin

/-! ### Kinds in sentences -/

/-- The kinds that stand in a form outside its rules. -/
def Form.kinds : Form → List TokenKind
  | .kind k => [k]
  | .rule _ => []
  | .seq a b => a.kinds ++ b.kinds
  | .either a b => a.kinds ++ b.kinds
  | .option a => a.kinds
  | .many a => a.kinds

theorem Rule.isTerminal_production (rule : Rule) :
    ∀ kind ∈ rule.production.kinds, kind.isTerminal = true := by
  cases rule <;> decide

/-- Sentences are made of the kinds that trees hold. -/
theorem Derives.isTerminal {form : Form} {w : List TokenKind} (h : Derives form w)
    (hform : ∀ kind ∈ form.kinds, kind.isTerminal = true) :
    ∀ kind ∈ w, kind.isTerminal = true := by
  induction h with
  | kind kind => simpa [Form.kinds] using hform
  | @rule rule w _ ih => exact ih rule.isTerminal_production
  | seq _ _ iha ihb =>
      simp only [Form.kinds, List.mem_append] at hform
      intro kind hkind
      rcases List.mem_append.mp hkind with hkind | hkind
      · exact iha (fun k hk => hform k (.inl hk)) kind hkind
      · exact ihb (fun k hk => hform k (.inr hk)) kind hkind
  | first _ ih => exact ih fun k hk => hform k (List.mem_append_left _ hk)
  | second _ ih => exact ih fun k hk => hform k (List.mem_append_right _ hk)
  | none | done => exact fun kind hkind => absurd hkind List.not_mem_nil
  | one _ ih => exact ih hform
  | more _ _ iha ihb =>
      intro kind hkind
      rcases List.mem_append.mp hkind with hkind | hkind
      · exact iha hform kind hkind
      · exact ihb hform kind hkind

namespace State

/-- The kinds lead from the state to the end of a document. -/
def Accepts : State → List TokenKind → Prop
  | s, [] => s = finished
  | s, kind :: kinds =>
    ∃ t, s.select kind (examplesFirst kinds) = some t ∧ t.next.Accepts kinds

theorem accepts_of_pushAll {α : Type} {d : Draft α} {l : List (TokenKind × α)}
    {document : Option (Tree.Feature α)} (h : d.pushAll l = some (.finished document)) :
    d.state.Accepts (l.map Prod.fst) := by
  induction l generalizing d with
  | nil =>
      obtain rfl := Option.some.inj h
      rfl
  | cons x l ih =>
      obtain ⟨kind, a⟩ := x
      obtain ⟨d', hpush, hrest⟩ := Option.bind_eq_some_iff.mp h
      have hstate := d.push_state kind (examplesFirst (l.map Prod.fst)) a
      rw [hpush, Option.map_some] at hstate
      obtain ⟨t, ht, hnext⟩ := Option.map_eq_some_iff.mp hstate.symm
      refine ⟨t, ht, ?_⟩
      rw [hnext]
      exact ih hrest

/-- The table accepts every sentence of the grammar. -/
theorem accepts_of_derives {w : List TokenKind} (h : Derives (.rule .document) w) :
    start.Accepts (w ++ [.eof]) := by
  let l : List (TokenKind × Unit) := w.map (·, ())
  have hl : l.map Prod.fst = w := by simp [l, Function.comp_def]
  rw [← hl] at h
  obtain ⟨document, hlines⟩ := Tree.derives_iff_exists_lines.mp h
  have haccepts := accepts_of_pushAll (Draft.pushAll_lines document ())
  rw [hlines, List.map_append, hl] at haccepts
  exact haccepts

/-! ### Pragmas -/

theorem next_ne_start {s : State} {t : Transition} (h : t ∈ s.transitions)
    (hkind : t.kind.isTerminal = true) : t.next ≠ start := by
  revert s t
  decide

theorem kind_ne_language {s : State} (h : s ≠ start) : ∀ t ∈ s.transitions, t.kind ≠ .language := by
  revert s
  decide

theorem kind_of_select {s : State} {kind : TokenKind} {ahead : Bool} {t : Transition}
    (h : s.select kind ahead = some t) : t.kind = kind := by
  have ht := List.find?_some h
  simp only [Bool.and_eq_true, decide_eq_true_eq] at ht
  exact ht.1

/-- Behind the start of a document no pragma is accepted. -/
theorem language_not_mem {s : State} (h : s ≠ start) {w : List TokenKind}
    (hw : ∀ kind ∈ w, kind.isTerminal = true) (haccepts : s.Accepts (w ++ [.eof])) :
    .language ∉ w := by
  induction w generalizing s with
  | nil => exact List.not_mem_nil
  | cons kind w ih =>
      obtain ⟨t, ht, hrest⟩ := haccepts
      have hkind := kind_of_select ht
      have hnext := next_ne_start (List.mem_of_find?_eq_some ht)
        (by rw [hkind]; exact hw kind (by simp))
      rw [List.mem_cons, not_or]
      refine ⟨?_, ih hnext (fun k hk => hw k (by simp [hk])) hrest⟩
      rintro rfl
      exact kind_ne_language h t (List.mem_of_find?_eq_some ht) hkind

/-! ### The first transition that accepts a line -/

/-- The transition for free text comes last, and that for pragmas in front of
that for comments. -/
theorem pairwise_transitions (s : State) :
    s.transitions.Pairwise fun u v =>
      u.kind ≠ .other ∧ ¬(u.kind = .comment ∧ v.kind = .language) := by
  revert s
  decide

/-- Whether a line that is meant as one kind may be of another kind, too. -/
def mayBe (meant kind : TokenKind) : Bool :=
  kind = meant || kind = .other || meant = .language && kind = .comment

/-- The first transition for a kind that a line may have is the one for the kind
that the line is meant as. -/
theorem find?_mayBe {s : State} {kind : TokenKind} {ahead : Bool} {t : Transition}
    (h : s.select kind ahead = some t) :
    (s.transitions.find? fun t => mayBe kind t.kind && (!t.lookahead || ahead)) = some t := by
  obtain ⟨ht, front, back, hsplit, hfront⟩ := List.find?_eq_some_iff_append.mp h
  have hpairs := pairwise_transitions s
  rw [hsplit, List.pairwise_append] at hpairs
  have hkind := kind_of_select h
  refine List.find?_eq_some_iff_append.mpr ⟨?_, front, back, hsplit, ?_⟩
  · simp only [Bool.and_eq_true, decide_eq_true_eq] at ht
    simp [mayBe, ht]
  · intro u hu
    obtain ⟨hother, hpragma⟩ := hpairs.2.2 u hu t (by simp)
    rw [hkind] at hpragma
    have hnot := hfront u hu
    by_cases hsame : u.kind = kind
    · simpa [mayBe, hsame] using hnot
    · have hnotPragma : (kind = .language && u.kind = .comment : Bool) = false := by
        rw [Bool.eq_false_iff]
        intro hboth
        simp only [Bool.and_eq_true, decide_eq_true_eq] at hboth
        exact hpragma hboth.symm
      simp [mayBe, hsame, hother, hnotPragma]

theorem find?_congr {α : Type} {l : List α} {p q : α → Bool} (h : ∀ a ∈ l, p a = q a) :
    l.find? p = l.find? q := by
  rw [← List.head?_filter, ← List.head?_filter, List.filter_congr h]

/-! ### Blank lines and comments -/

/-- Whether the state is inside a doc string. -/
def inDocString : State → Bool
  | steps _ .docString => true
  | _ => false

/-- What a blank line is accepted as: behind a line of a description it is one
of its lines. -/
def blankKind : State → TokenKind
  | header _ .description => .other
  | _ => .empty

/-- The state behind a comment, which ends a description. -/
def behindComment : State → State
  | header block _ => header block .comments
  | s => s

theorem blankKind_eq (s : State) : s.blankKind = .other ∨ s.blankKind = .empty := by
  cases s with
  | header block place => cases place <;> simp [blankKind]
  | _ => exact .inr rfl

/-- Blank lines and lines of descriptions are accepted behind a line of a
description and inside doc strings, and only there. -/
theorem blankKind_next {s : State} {t : Transition} (ht : t ∈ s.transitions) :
    t.next.blankKind = .other ∨ t.next.inDocString = true ∧ t.kind = .other ↔
      t.kind = .other := by
  revert s t
  decide

/-- A separator leads into a doc string or out of it, and nothing else does. -/
theorem inDocString_next {s : State} {t : Transition} (ht : t ∈ s.transitions) :
    t.next.inDocString =
      if t.kind = .docStringSeparator then !s.inDocString else s.inDocString := by
  revert s t
  decide

/-- Inside a doc string all lines but separators are free text. -/
theorem kind_of_inDocString {s : State} (hs : s.inDocString = true) {t : Transition}
    (ht : t ∈ s.transitions) : t.kind = .docStringSeparator ∨ t.kind = .other := by
  revert s t
  decide

/-- Behind a comment the same lines are accepted as before, except for lines of
a description. -/
theorem select_behindComment {s : State} {kind : TokenKind} {ahead : Bool} {t : Transition}
    (hkind : kind ∉ [.other, .empty, .comment]) (h : s.select kind ahead = some t) :
    ∃ t', s.behindComment.select kind ahead = some t' ∧ t'.next = t.next := by
  cases s with
  | header block place =>
      have hsame : ((header block .comments).select kind ahead).map Transition.next =
          ((header block place).select kind ahead).map Transition.next := by
        cases kind with
        | other | empty | comment => exact absurd (by simp) hkind
        | _ => cases block <;> cases place <;> cases ahead <;> rfl
      rw [h] at hsame
      exact Option.map_eq_some_iff.mp hsame
  | _ => exact ⟨t, h, rfl⟩

theorem find?_blank {s : State} (hs : s.inDocString = false) (hfinished : s ≠ finished)
    (ahead : Bool) :
    (s.transitions.find? fun t => mayBe .empty t.kind && (!t.lookahead || ahead)) =
      some (s.stay s.blankKind) := by
  revert s ahead
  decide

theorem find?_comment {s : State} (hs : s.inDocString = false) (hfinished : s ≠ finished)
    (ahead : Bool) :
    ∃ t, (s.transitions.find? fun t => mayBe .comment t.kind && (!t.lookahead || ahead)) =
        some t ∧ t.kind = .comment ∧ t.next = s.behindComment := by
  cases s with
  | header block place => cases block <;> cases place <;> exact ⟨_, rfl, rfl, rfl⟩
  | steps block place =>
      cases block <;> cases place <;> first | exact ⟨_, rfl, rfl, rfl⟩ | cases hs
  | finished => exact absurd rfl hfinished
  | start | language | featureTags | definitionTags | examplesTags | examplesTable =>
      exact ⟨_, rfl, rfl, rfl⟩

end State
end Gherkin
