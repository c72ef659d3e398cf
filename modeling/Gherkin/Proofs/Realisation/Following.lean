import Gherkin.Proofs.Draft.Tables
import Gherkin.Proofs.Parser.Trees
import Gherkin.Proofs.Realisation.Choices

/-!
# Reading lines that realise a sentence

A reader in front of lines that realise the rest of a sentence accepts the first
of them as it is meant and then stands in front of the others.  Its state is
that of the sentence, unless a comment has ended a description.
-/

namespace Gherkin

namespace State

/-- Looking ahead matters for tags only. -/
theorem select_ahead (s : State) {kind : TokenKind} (h : kind ≠ .tagLine) (a b : Bool) :
    s.select kind a = s.select kind b := by
  rw [select, select]
  refine find?_congr fun t ht => ?_
  cases hlook : t.lookahead with
  | false => rfl
  | true => simp [Run.kind_eq_tagLine_of_lookahead ht hlook, Ne.symm h]

/-- A reader that has read comments is in the state `actual` where the sentence
`kinds` goes on from the state `s`. -/
def Follows (s actual : State) (kinds : List TokenKind) : Prop :=
  actual = s ∨ kinds.head? ≠ some .other ∧ actual = s.behindComment

theorem behindComment_behindComment (s : State) :
    s.behindComment.behindComment = s.behindComment := by
  cases s <;> rfl

theorem Follows.behindComment {s actual : State} {kinds : List TokenKind}
    (h : s.Follows actual kinds) (hkinds : kinds.head? ≠ some .other) :
    s.Follows actual.behindComment kinds := by
  rcases h with rfl | ⟨-, rfl⟩
  · exact .inr ⟨hkinds, rfl⟩
  · exact .inr ⟨hkinds, behindComment_behindComment s⟩

/-- The next kind of the sentence leads to where it leads in the sentence. -/
theorem Follows.exists_select {s actual : State} {kind : TokenKind} {kinds : List TokenKind}
    (h : s.Follows actual (kind :: kinds)) (hkind : kind ≠ .empty ∧ kind ≠ .comment)
    {ahead : Bool} {t : Transition} (ht : s.select kind ahead = some t) :
    ∃ t', actual.select kind ahead = some t' ∧ t'.next = t.next := by
  rcases h with rfl | ⟨hother, rfl⟩
  · exact ⟨t, ht, rfl⟩
  · have hother : kind ≠ .other := by simpa using hother
    exact select_behindComment (by simp [hother, hkind]) ht

theorem ne_finished_of_select {s : State} {kind : TokenKind} {ahead : Bool} {t : Transition}
    (h : s.select kind ahead = some t) : s ≠ finished := by
  rintro rfl
  cases h

end State

namespace Reader

/-- The reader has met no errors and stands in front of lines that realise the
rest of a sentence.  The token before has been accepted as `previous`, `columns`
is the number of cells of the rows of the table that is being read, and `started`
says whether the sentence has started. -/
structure Realises (r : Reader) (d : Draft Leaf) (started : Bool) (previous : TokenKind)
    (columns : Option Nat) (entries : List Entry) : Prop where
  drafts : r.Drafts d
  wellRead : WellRead d.lines
  errors : r.errors = []
  failure : r.failure = none
  builtin : r.matcher.IsBuiltin
  notStart : started = true → r.state ≠ .start
  realises : r.matcher.realises started entries = true
  docString : r.matcher.docString.isSome = r.state.inDocString
  previous : r.state.blankKind = .other ∨ r.state.inDocString = true ∧ previous = .other ↔
    previous = .other
  rows : ∀ row ∈ d.rows, columns = some row.reading.items.length
  even : Entry.evenRows columns entries = true
  terminal : ∀ kind ∈ Entry.sentence entries, kind.isTerminal = true
  accepts : ∃ s : State, s.Accepts (Entry.sentence entries ++ [.eof]) ∧
    s.Follows r.state (Entry.sentence entries ++ [.eof])

variable {r : Reader} {d : Draft Leaf} {started : Bool} {previous : TokenKind}
  {columns : Option Nat}

/-- The first transition for a kind of the token takes it. -/
theorem Realises.exists_takesTo {entries : List Entry}
    (h : r.Realises d started previous columns entries) {t read : Token} {following : List Token}
    {transition : Transition} {next : Matcher}
    (hfind : (r.state.transitions.find? fun u => r.matcher.isOf u.kind t &&
      (!u.lookahead || r.matcher.examplesAhead following)) = some transition)
    (hmatch : r.matcher.matchAs transition.kind t = .ok (some (next, read))) :
    ∃ reading d', r.TakesTo d t following ⟨transition, next, read⟩ reading d' := by
  have hchoice : r.choice t following = .ok (some ⟨transition, next, read⟩) :=
    Matcher.choose_of_find? (fun u hu hlook => Run.kind_eq_tagLine_of_lookahead hu hlook)
      hfind hmatch
  have heven := Draft.even_of_rows h.rows
  obtain ⟨b, hmove⟩ := h.drafts.exists_move h.wellRead hchoice fun _ => heven
  exact h.drafts.takesTo h.wellRead h.failure hchoice hmove

/-- What has become of a reader that has taken the first of several lines. -/
structure Advances (r : Reader) (d : Draft Leaf) (started : Bool) (previous : TokenKind)
    (columns : Option Nat) (e : Entry) (es : List Entry) (number : Nat) (a : Acceptance)
    (d' : Draft Leaf) : Prop where
  choice : r.choice (.ofLine e.text number) (Entry.tokens number es) = .ok (some a)
  kind : a.transition.kind = e.acceptedKind previous
  matcher : (r.take (.ofLine e.text number) (Entry.tokens number es)).matcher = a.matcher
  realises : (r.take (.ofLine e.text number) (Entry.tokens number es)).Realises d'
    (e.started started) (e.acceptedKind previous) (e.columns columns) es

theorem Realises.rows_push {e : Entry} {es : List Entry}
    (h : r.Realises d started previous columns (e :: es)) {d' : Draft Leaf} {leaf : Leaf}
    {ahead : Bool} (hpush : d.push (e.acceptedKind previous) ahead leaf = some d')
    (hleaf : ∀ l, e = .line .tableRow l → leaf.reading.items.length = l.cells.length) :
    ∀ row ∈ d'.rows, e.columns columns = some row.reading.items.length := by
  have hrows := h.rows
  have heven := h.even
  have hterminal := h.terminal
  rw [Draft.rows_push hpush]
  cases e with
  | blank l =>
      rw [Entry.acceptedKind]
      split
      · exact fun row hrow => absurd hrow List.not_mem_nil
      · exact hrows
  | comment l => exact hrows
  | line kind l =>
      have hkind : kind.isTerminal = true := hterminal kind (by simp [Entry.sentence, Entry.kind?])
      cases kind with
      | eof | empty | comment => cases hkind
      | tableRow =>
          rw [Entry.evenRows, Bool.and_eq_true] at heven
          intro row hrow
          rcases List.mem_append.mp hrow with hrow | hrow
          · have hsame := heven.1
            rw [Entry.fits, hrows row hrow] at hsame
            have hlength : row.reading.items.length = l.cells.length := by simpa using hsame
            rw [hlength]
            rfl
          · obtain rfl := List.mem_singleton.mp hrow
            rw [hleaf l rfl]
            rfl
      | _ => exact fun row hrow => absurd hrow List.not_mem_nil

/-- When the first line has been accepted as it is meant, the reader stands in
front of the others. -/
theorem Realises.advances {e : Entry} {es : List Entry} {number : Nat}
    (h : r.Realises d started previous columns (e :: es)) {read : Token} {kind : TokenKind}
    {transition : Transition} {next : Matcher}
    (hof : ∀ u ∈ r.state.transitions,
      r.matcher.isOf u.kind (.ofLine e.text number) = State.mayBe kind u.kind)
    (hfind : (r.state.transitions.find? fun u => State.mayBe kind u.kind &&
      (!u.lookahead || r.matcher.examplesAhead (Entry.tokens number es))) = some transition)
    (hmatch : r.matcher.matchAs transition.kind (.ofLine e.text number) =
      .ok (some (next, read)))
    (hkind : transition.kind = e.acceptedKind previous)
    (hstarted : e.started started = true → transition.next ≠ .start)
    (hrealises : next.realises (e.started started) es = true)
    (haccepts : ∃ s : State, s.Accepts (Entry.sentence es ++ [.eof]) ∧
      s.Follows transition.next (Entry.sentence es ++ [.eof])) :
    ∃ a d', r.Advances d started previous columns e es number a d' := by
  have hfind' : (r.state.transitions.find? fun u =>
      r.matcher.isOf u.kind (.ofLine e.text number) &&
        (!u.lookahead || r.matcher.examplesAhead (Entry.tokens number es))) =
      some transition := by
    rw [← hfind]
    refine State.find?_congr fun u hu => ?_
    rw [hof u hu]
  obtain ⟨reading, d', htakes⟩ := h.exists_takesTo hfind' hmatch
  have hmem := List.mem_of_find?_eq_some hfind
  have hmatcher : (r.take (.ofLine e.text number) (Entry.tokens number es)).matcher = next :=
    htakes.matcher
  have hstate : (r.take (.ofLine e.text number) (Entry.tokens number es)).state =
      transition.next := htakes.state
  obtain ⟨content, hcontent, -, hread⟩ := Matcher.exists_content_of_matchAs hmatch
  have hreading : reading =
      { content with kind := transition.kind, dialect := next.dialect } := by
    have htoken := htakes.tokenReading
    rw [hread] at htoken
    exact (Option.some.inj htoken).symm
  have hpush := htakes.push
  rw [htakes.kind, hkind] at hpush
  refine ⟨_, d', htakes.choice, hkind, htakes.matcher, htakes.drafts, htakes.wellRead, ?_,
    htakes.failure, ?_, ?_, ?_, ?_, ?_, h.rows_push hpush ?_, ?_, ?_, ?_⟩
  · rw [htakes.errors, h.errors]
  · rw [hmatcher]
    exact h.builtin.of_matchAs hmatch
  · rw [hstate]
    exact hstarted
  · rw [hmatcher]
    exact hrealises
  · rw [hmatcher, hstate, Matcher.docString_of_matchAs hmatch, State.inDocString_next hmem,
      h.docString]
  · rw [hstate, ← hkind]
    exact State.blankKind_next hmem
  · rintro l rfl
    rw [hkind] at hcontent
    have hcells := hcontent
    simp only [Entry.acceptedKind, Entry.text, Token.ofLine, Matcher.content?,
      Matcher.lineContent?] at hcells
    split at hcells
    · obtain rfl := Option.some.inj hcells
      rw [hreading]
      rfl
    · cases hcells
  · have heven := h.even
    rw [Entry.evenRows, Bool.and_eq_true] at heven
    exact heven.2
  · intro k hk
    refine h.terminal k ?_
    rw [Entry.sentence, List.filterMap_cons]
    split
    · exact hk
    · exact List.mem_cons_of_mem _ hk
  · rw [hstate]
    exact haccepts

end Reader
end Gherkin
