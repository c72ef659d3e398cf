import Gherkin.Proofs.Realisation.Following

/-!
# Reading a document that realises a sentence

Blank lines, comments and lines of the sentence are accepted one by one as they
are meant, and so are all lines up to the end of the source.
-/

namespace Gherkin

/-- Tokens that are read one after another as the given kinds. -/
def Matcher.readAll (m : Matcher) : List TokenKind → List Token → List Token
  | kind :: kinds, t :: ts =>
    match m.matchAs kind t with
    | .ok (some (next, read)) => read :: next.readAll kinds ts
    | _ => []
  | _, _ => []

namespace Reader

variable {r : Reader} {d : Draft Leaf} {started : Bool} {previous : TokenKind}
  {columns : Option Nat} {l : Line} {es : List Entry}

theorem Realises.inDocString_eq_false {entries : List Entry}
    (h : r.Realises d started previous columns entries) (hdoc : r.matcher.docString = none) :
    r.state.inDocString = false := by
  rw [← h.docString, hdoc]
  rfl

theorem Realises.ne_finished {entries : List Entry}
    (h : r.Realises d started previous columns entries) : r.state ≠ .finished := by
  obtain ⟨s, haccepts, hfollows⟩ := h.accepts
  have hterminal := h.terminal
  cases hsentence : Entry.sentence entries with
  | nil =>
      rw [hsentence, List.nil_append] at haccepts hfollows
      obtain ⟨t, ht, -⟩ := haccepts
      obtain ⟨t', ht', -⟩ := hfollows.exists_select (by decide) ht
      exact State.ne_finished_of_select ht'
  | cons kind kinds =>
      rw [hsentence, List.cons_append] at haccepts hfollows
      have hkind := hterminal kind (by rw [hsentence]; simp)
      obtain ⟨t, ht, -⟩ := haccepts
      obtain ⟨t', ht', -⟩ := hfollows.exists_select
        (by constructor <;> (rintro rfl; cases hkind)) ht
      exact State.ne_finished_of_select ht'

/-- A blank line is accepted, behind a description as a line of it. -/
theorem Realises.advances_blank (h : r.Realises d started previous columns (.blank l :: es))
    (number : Nat) : ∃ a d', r.Advances d started previous columns (.blank l) es number a d' := by
  have hrealises := h.realises
  cases hdoc : r.matcher.docString with
  | some opened =>
      simp only [Matcher.realises, hdoc] at hrealises
      cases hrealises
  | none =>
      simp only [Matcher.realises, hdoc, Bool.and_eq_true] at hrealises
      have houtside := h.inDocString_eq_false hdoc
      have hof : ∀ k, r.matcher.isOf k (.ofLine l number) = State.mayBe .empty k :=
        Matcher.lineContent?_of_isEmpty h.builtin.dialect hdoc hrealises.1
      have hkind : (r.state.stay r.state.blankKind).kind =
          (Entry.blank l).acceptedKind previous := by
        have hprevious := h.previous
        simp only [houtside, Bool.false_eq_true, false_and, or_false] at hprevious
        change r.state.blankKind = if previous = .other then .other else .empty
        split
        · next hother => exact hprevious.mpr hother
        · next hother =>
            rw [← hprevious] at hother
            exact r.state.blankKind_eq.resolve_left hother
      have hblank : State.mayBe .empty r.state.blankKind = true := by
        rcases r.state.blankKind_eq with hother | hempty
        · rw [hother]
          rfl
        · rw [hempty]
          rfl
      have hpragma : r.state.blankKind ≠ .language := by
        rintro hlanguage
        rw [hlanguage] at hblank
        cases hblank
      have hseparator : r.state.blankKind ≠ .docStringSeparator := by
        rintro hseparator
        rw [hseparator] at hblank
        cases hblank
      obtain ⟨next, read, hmatch⟩ := Matcher.exists_matchAs_of_isOf
        ((hof r.state.blankKind).trans hblank) hpragma
      obtain rfl := Matcher.eq_of_matchAs hpragma hseparator hmatch
      exact h.advances (fun u _ => hof u.kind) (State.find?_blank houtside h.ne_finished _)
        hmatch hkind h.notStart hrealises.2 h.accepts

/-- A comment is accepted, and ends a description. -/
theorem Realises.advances_comment (h : r.Realises d started previous columns (.comment l :: es))
    (number : Nat) : ∃ a d', r.Advances d started previous columns (.comment l) es number a d' := by
  have hrealises := h.realises
  cases hdoc : r.matcher.docString with
  | some opened =>
      simp only [Matcher.realises, hdoc] at hrealises
      cases hrealises
  | none =>
      simp only [Matcher.realises, hdoc, Bool.and_eq_true, Bool.or_eq_true,
        Option.isNone_iff_eq_none] at hrealises
      obtain ⟨⟨⟨hsharp, hpragma⟩, hother⟩, hrest⟩ := hrealises
      have hof : ∀ k, (k = .language → l.languageTag? = none) →
          r.matcher.isOf k (.ofLine l number) = State.mayBe .comment k := fun k hk =>
        Matcher.lineContent?_of_comment h.builtin.dialect hdoc hsharp hk
      have hofKind : ∀ u ∈ r.state.transitions,
          r.matcher.isOf u.kind (.ofLine l number) = State.mayBe .comment u.kind := by
        intro u hu
        refine hof u.kind fun hlanguage => ?_
        rcases hpragma with hstarted | hnone
        · exact absurd hlanguage (State.kind_ne_language (h.notStart hstarted) u hu)
        · exact hnone
      obtain ⟨transition, hfind, hkind, hnext⟩ := State.find?_comment
        (h.inDocString_eq_false hdoc) h.ne_finished
        (r.matcher.examplesAhead (Entry.tokens number es))
      obtain ⟨next, read, hmatch⟩ := Matcher.exists_matchAs_of_isOf
        (hof .comment (by rintro ⟨⟩)) (by decide)
      obtain rfl := Matcher.eq_of_matchAs (by decide) (by decide) hmatch
      rw [← hkind] at hmatch
      refine h.advances hofKind hfind hmatch hkind ?_ hrest ?_
      · intro hstarted
        rw [hnext]
        have hstate := h.notStart hstarted
        revert hstate
        cases r.state <;> simp [State.behindComment]
      obtain ⟨s, haccepts, hfollows⟩ := h.accepts
      refine ⟨s, haccepts, ?_⟩
      rw [hnext]
      refine hfollows.behindComment ?_
      have hsentence : Entry.sentence (.comment l :: es) = Entry.sentence es := rfl
      rw [hsentence]
      cases hes : Entry.sentence es with
      | nil => simp
      | cons kind kinds => simpa [hes] using hother

/-- A transition for the next line of a sentence leads to where the rest of it is accepted. -/
structure Leads (r : Reader) (kind : TokenKind) (es : List Entry) (u : Transition) : Prop where
  select : r.state.select kind (examplesFirst (Entry.sentence es ++ [.eof])) = some u
  terminal : ∀ k ∈ Entry.sentence es, k.isTerminal = true
  language : .language ∉ Entry.sentence es
  ne_start : u.next ≠ .start
  accepts : ∃ s : State, s.Accepts (Entry.sentence es ++ [.eof]) ∧
    s.Follows u.next (Entry.sentence es ++ [.eof])

theorem Realises.exists_leads {kind : TokenKind}
    (h : r.Realises d started previous columns (.line kind l :: es)) : ∃ u, r.Leads kind es u := by
  have hterminal := h.terminal
  obtain ⟨s, ⟨t, hselect, hrest⟩, hfollows⟩ := h.accepts
  have hsentence : Entry.sentence (.line kind l :: es) = kind :: Entry.sentence es := rfl
  rw [hsentence, List.forall_mem_cons] at hterminal
  obtain ⟨hkind, hothers⟩ := hterminal
  obtain ⟨u, hselect', hnext⟩ := hfollows.exists_select
    (by constructor <;> (rintro rfl; cases hkind)) hselect
  have hstart : u.next ≠ .start := by
    apply State.next_ne_start (List.mem_of_find?_eq_some hselect')
    rw [State.kind_of_select hselect']
    exact hkind
  refine ⟨u, hselect', hothers, ?_, hstart, t.next, hrest, .inl hnext⟩
  exact State.language_not_mem (hnext ▸ hstart) hothers hrest

/-- Looking ahead does not matter for lines that are no tag lines. -/
theorem Leads.select_ahead {kind : TokenKind} {u : Transition} (h : r.Leads kind es u)
    (hkind : kind ≠ .tagLine) (ahead : Bool) : r.state.select kind ahead = some u := by
  rw [← h.select]
  exact r.state.select_ahead hkind _ _

/-- Outside doc strings a line of the sentence is accepted as it is meant. -/
theorem Realises.advances_outside {kind : TokenKind}
    (h : r.Realises d started previous columns (.line kind l :: es))
    (hdoc : r.matcher.docString = none) (number : Nat) :
    ∃ a d', r.Advances d started previous columns (.line kind l) es number a d' := by
  obtain ⟨u, hleads⟩ := h.exists_leads
  have hkind := State.kind_of_select hleads.select
  have hrealises := h.realises
  simp only [Matcher.realises, hdoc, Bool.and_eq_true] at hrealises
  obtain ⟨honly, hrest⟩ := hrealises
  obtain ⟨next, hbehind, hrest⟩ := (Option.any_eq_true _ _).mp hrest
  obtain ⟨read, hmatch⟩ := Matcher.exists_matchAs_of_behind? hbehind number
  have hselect : r.state.select kind (r.matcher.examplesAhead (Entry.tokens number es)) =
      some u := by
    by_cases htag : kind = .tagLine
    · subst htag
      obtain rfl := Matcher.eq_of_matchAs (by decide) (by decide) hmatch
      rw [Matcher.examplesAhead_of_realises h.builtin hdoc hrest hleads.terminal
        hleads.language]
      exact hleads.select
    · exact hleads.select_ahead htag _
  rw [← hkind] at hmatch
  exact h.advances (fun u _ => Matcher.isOf_of_isOnly honly number u.kind)
    (State.find?_mayBe hselect) hmatch hkind (fun _ => hleads.ne_start) hrest hleads.accepts

/-- Inside a doc string a line is told apart by its separator only. -/
theorem Realises.isOf_inside {kind : TokenKind} {opened : OpenDocString}
    (h : r.Realises d started previous columns (.line kind l :: es))
    (hdoc : r.matcher.docString = some opened) (meant : TokenKind)
    (hmeant : l.startsWith opened.separator.text = State.mayBe meant .docStringSeparator)
    (number : Nat) : ∀ u ∈ r.state.transitions,
      r.matcher.isOf u.kind (.ofLine l number) = State.mayBe meant u.kind := by
  have hinside : r.state.inDocString = true := by
    rw [← h.docString, hdoc]
    rfl
  have hseparator : r.matcher.isOf .docStringSeparator (.ofLine l number) =
      l.startsWith opened.separator.text := by
    change (r.matcher.separator? l).isSome = _
    cases hstarts : l.startsWith opened.separator.text <;>
      simp [Matcher.separator?, hdoc, hstarts]
  intro u hu
  rcases State.kind_of_inDocString hinside hu with hu | hu
  · rw [hu, hseparator, hmeant]
  · rw [hu]
    simp [State.mayBe, Matcher.isOf, Matcher.content?, Matcher.lineContent?, Token.ofLine]

/-- Inside a doc string a line of the sentence is accepted as it is meant: as a line of the
content or as the closing line. -/
theorem Realises.advances_inside {kind : TokenKind} {opened : OpenDocString}
    (h : r.Realises d started previous columns (.line kind l :: es))
    (hdoc : r.matcher.docString = some opened) (number : Nat) :
    ∃ a d', r.Advances d started previous columns (.line kind l) es number a d' := by
  obtain ⟨u, hleads⟩ := h.exists_leads
  have hkind := State.kind_of_select hleads.select
  have hrealises := h.realises
  cases kind with
  | other =>
      simp only [Matcher.realises, hdoc, Bool.and_eq_true, Bool.not_eq_true'] at hrealises
      have hother : r.matcher.isOf .other (.ofLine l number) = true := rfl
      obtain ⟨next, read, hmatch⟩ := Matcher.exists_matchAs_of_isOf hother (by decide)
      obtain rfl := Matcher.eq_of_matchAs (by decide) (by decide) hmatch
      rw [← hkind] at hmatch
      exact h.advances (h.isOf_inside hdoc .other hrealises.1 number)
        (State.find?_mayBe (hleads.select_ahead (by decide) _)) hmatch hkind
        (fun _ => hleads.ne_start) hrealises.2 hleads.accepts
  | docStringSeparator =>
      simp only [Matcher.realises, hdoc, Bool.and_eq_true] at hrealises
      obtain ⟨next, hbehind, hrest⟩ := (Option.any_eq_true _ _).mp hrealises.2
      obtain ⟨read, hmatch⟩ := Matcher.exists_matchAs_of_behind? hbehind number
      rw [← hkind] at hmatch
      exact h.advances (h.isOf_inside hdoc .docStringSeparator hrealises.1 number)
        (State.find?_mayBe (hleads.select_ahead (by decide) _)) hmatch hkind
        (fun _ => hleads.ne_start) hrest hleads.accepts
  | _ =>
      simp only [Matcher.realises, hdoc] at hrealises
      cases hrealises

/-- The first of the lines is accepted as it is meant. -/
theorem Realises.exists_advances {e : Entry} (h : r.Realises d started previous columns (e :: es))
    (number : Nat) : ∃ a d', r.Advances d started previous columns e es number a d' := by
  cases e with
  | line kind l =>
      cases hdoc : r.matcher.docString with
      | none => exact h.advances_outside hdoc number
      | some opened => exact h.advances_inside hdoc number
  | blank l => exact h.advances_blank number
  | comment l => exact h.advances_comment number

/-- What a reader has made of lines behind the first `number` lines, and of the
end of the source: a tree. -/
structure Finishes (r : Reader) (previous : TokenKind) (entries : List Entry) (number : Nat)
    (document : Option (Tree.Feature Leaf)) : Prop where
  drafts : (r.read (Entry.tokens number entries)).Drafts (.finished document)
  errors : (r.read (Entry.tokens number entries)).errors = []
  failure : (r.read (Entry.tokens number entries)).failure = none
  kinds : (r.acceptances (Entry.tokens number entries)).map (fun a => a.token.kind?) =
    (Entry.acceptedKinds previous entries ++ [TokenKind.eof]).map some
  tokens : (r.acceptances (Entry.tokens number entries)).map Acceptance.token =
    r.matcher.readAll (Entry.acceptedKinds previous entries ++ [.eof])
      (Entry.tokens number entries)

/-- At the end of the lines the end of the source is accepted. -/
theorem Realises.finishes_nil (h : r.Realises d started previous columns []) (number : Nat) :
    ∃ document, r.Finishes previous [] number document := by
  obtain ⟨s, ⟨t, hselect, hfinished⟩, hfollows⟩ := h.accepts
  obtain ⟨transition, hselect', hnext⟩ := hfollows.exists_select (by decide) hselect
  have hkind := State.kind_of_select hselect'
  have hof : ∀ k, r.matcher.isOf k (.eof (number + 1)) = decide (k = .eof) := by
    intro k
    by_cases hk : k = .eof
    · rw [hk]
      rfl
    · rw [Matcher.isOf_eof_eq_false _ hk]
      exact (decide_eq_false hk).symm
  have hfind : (r.state.transitions.find? fun u =>
      r.matcher.isOf u.kind (.eof (number + 1)) &&
        (!u.lookahead || r.matcher.examplesAhead [])) = some transition := by
    rw [← hselect', State.select]
    refine State.find?_congr fun u _ => ?_
    rw [hof]
    rfl
  obtain ⟨next, read, hmatch⟩ :=
    Matcher.exists_matchAs_of_isOf (hof transition.kind |>.trans (decide_eq_true hkind))
      (by rw [hkind]; decide)
  obtain ⟨reading, d', htakes⟩ := h.exists_takesTo hfind hmatch
  have hstate := htakes.drafts.state
  rw [htakes.state, hnext, hfinished] at hstate
  obtain ⟨document, rfl⟩ := exists_finished_of_state hstate.symm
  have hnot : ¬r.failure.isSome := by simp [h.failure]
  have hread : r.read (Entry.tokens number []) = r.take (.eof (number + 1)) [] := if_neg hnot
  have haccepted : r.acceptances (Entry.tokens number []) = [⟨transition, next, read⟩] := by
    rw [Entry.tokens, acceptances, if_neg hnot, htakes.choice]
    rfl
  refine ⟨document, ?_, ?_, ?_, ?_, ?_⟩
  · rw [hread]
    exact htakes.drafts
  · rw [hread, htakes.errors, h.errors]
  · rw [hread, htakes.failure]
  · rw [haccepted, List.map_singleton, Matcher.kind?_of_matchAs hmatch, hkind]
    rfl
  · rw [hkind] at hmatch
    rw [haccepted, Entry.acceptedKinds, List.nil_append, Entry.tokens, Matcher.readAll, hmatch]
    rfl

/-- All lines are accepted as they are meant, and the tree is finished. -/
theorem Realises.exists_finishes {entries : List Entry}
    (h : r.Realises d started previous columns entries) (number : Nat) :
    ∃ document, r.Finishes previous entries number document := by
  induction entries generalizing r d started previous columns number with
  | nil => exact h.finishes_nil number
  | cons e es ih =>
      obtain ⟨a, d', hfirst⟩ := h.exists_advances (number + 1)
      obtain ⟨document, hothers⟩ := ih hfirst.realises (number + 1)
      have hnot : ¬r.failure.isSome := by simp [h.failure]
      have hread : r.read (Entry.tokens number (e :: es)) =
          (r.take (.ofLine e.text (number + 1)) (Entry.tokens (number + 1) es)).read
            (Entry.tokens (number + 1) es) := if_neg hnot
      have haccepted : r.acceptances (Entry.tokens number (e :: es)) =
          a :: (r.take (.ofLine e.text (number + 1))
            (Entry.tokens (number + 1) es)).acceptances (Entry.tokens (number + 1) es) := by
        rw [Entry.tokens, acceptances, if_neg hnot, hfirst.choice]
        rfl
      have hmatch := (Matcher.choose_eq_some hfirst.choice).2
      rw [hfirst.kind] at hmatch
      refine ⟨document, ?_, ?_, ?_, ?_, ?_⟩
      · rw [hread]
        exact hothers.drafts
      · rw [hread, hothers.errors]
      · rw [hread, hothers.failure]
      · rw [haccepted, List.map_cons, hothers.kinds, Matcher.kind?_of_matchAs hmatch]
        rfl
      · rw [haccepted, List.map_cons, hothers.tokens, Entry.acceptedKinds, List.cons_append,
          Entry.tokens, Matcher.readAll, hmatch, hfirst.matcher]

/-- A reader that has finished a tree has read its document. -/
theorem Finishes.outcome {entries : List Entry} {number : Nat}
    {document : Option (Tree.Feature Leaf)} (h : r.Finishes previous entries number document) :
    (r.complete (Entry.tokens number entries)).outcome = .ok (Tree.document document) := by
  obtain ⟨hclose, hresult⟩ := h.drafts.result?
  have hnot : ¬(r.read (Entry.tokens number entries)).failure.isSome := by simp [h.failure]
  have hcomplete : r.complete (Entry.tokens number entries) =
      { r.read (Entry.tokens number entries) with
        builder := (r.read (Entry.tokens number entries)).builder.close.1 } := by
    rw [complete, closeRule, if_neg hnot]
    rcases hpair : (r.read (Entry.tokens number entries)).builder.close with ⟨b, e⟩
    rw [hpair] at hclose
    obtain rfl : e = none := hclose
    rfl
  rw [hcomplete, Reader.outcome]
  simp only [h.failure, h.errors, List.isEmpty_nil, if_true, hresult, Option.getD_some]

end Reader
end Gherkin
