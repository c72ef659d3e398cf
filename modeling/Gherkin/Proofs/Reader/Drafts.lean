import Gherkin.Proofs.Builder.Fillers
import Gherkin.Proofs.Draft.Scopes
import Gherkin.Proofs.Reader.Waiting

/-!
# Readers follow drafts

As long as a reader has met no errors, it stands where a draft of the tokens
that it has accepted stands, and its builder holds what that draft holds.  So a
document that has been read is the document of a tree, and the lines of the
tree are the tokens that have been accepted.
-/

namespace Gherkin

/-! ### Tokens as lines of a tree -/

/-- An accepted token as a child of a rule, where `pending` lists the comments
behind the last line that carries comments. -/
def Leaf.ofToken (pending : List Comment) (t : Token) (reading : Reading) : Leaf :=
  ⟨t.number, reading, if Builder.carriesComments reading.kind then pending else []⟩

/-- The comments that wait behind a token. -/
def pendingAfter (pending : List Comment) (t : Token) (reading : Reading) : List Comment :=
  if reading.kind = .comment then pending ++ [⟨t.location, reading.text.getD ""⟩]
  else if Builder.carriesComments reading.kind then []
  else pending

/-- The lines that accepted tokens add to a tree. -/
def leavesOf (pending : List Comment) : List Token → List (TokenKind × Leaf)
  | [] => []
  | t :: ts =>
    match t.reading with
    | none => leavesOf pending ts
    | some reading =>
      Tree.lineOf reading.kind (Leaf.ofToken pending t reading) ++
        leavesOf (pendingAfter pending t reading) ts

theorem leavesOf_cons {t : Token} {reading : Reading} (h : t.reading = some reading)
    (pending : List Comment) (ts : List Token) :
    leavesOf pending (t :: ts) =
      Tree.lineOf reading.kind (Leaf.ofToken pending t reading) ++
        leavesOf (pendingAfter pending t reading) ts := by
  rw [leavesOf, h]

/-- The kinds of the lines of a tree are those of the tokens, without blank
lines, comments and the end of the source. -/
theorem map_fst_leavesOf (pending : List Comment) (ts : List Token) :
    (leavesOf pending ts).map Prod.fst =
      (ts.filterMap Token.kind?).filter TokenKind.isTerminal := by
  induction ts generalizing pending with
  | nil => rfl
  | cons t ts ih =>
      rw [leavesOf, List.filterMap_cons, Token.kind?]
      cases t.reading with
      | none => exact ih pending
      | some reading =>
          rw [Option.map_some, List.map_append, ih, Tree.lineOf]
          cases hkind : reading.kind.isTerminal with
          | true => simp [hkind]
          | false => simp [hkind]

theorem wellRead_lineOf {kind : TokenKind} {leaf : Leaf} (h : leaf.reading.kind = kind) :
    WellRead (Tree.lineOf kind leaf) := by
  rw [Tree.lineOf]
  split
  · exact WellRead.cons_iff.mpr ⟨h, WellRead.nil⟩
  · exact WellRead.nil

namespace Builder

/-- Building a token that has been read, without fillers. -/
theorem clean_build (b : Builder) {t : Token} {reading : Reading}
    (h : t.reading = some reading) :
    (b.build t).clean =
      ({ b.clean with pending := pendingAfter b.pending t reading }).addLeaf reading.kind
        (Leaf.ofToken b.pending t reading) := by
  simp only [build, h, addLeaf, pendingAfter, Leaf.ofToken]
  by_cases hcomment : reading.kind = .comment
  · simp only [hcomment, if_true, TokenKind.isTerminal, Bool.false_eq_true, if_false]
    rfl
  · by_cases hcarries : carriesComments reading.kind = true
    · have hterminal : reading.kind.isTerminal = true := by
        revert hcarries
        cases reading.kind <;> decide
      simp only [hcomment, hcarries, hterminal, if_true, if_false]
      exact clean_add (by simp [Node.isFiller, hterminal]) _
    · simp only [hcomment, hcarries, if_false]
      by_cases hterminal : reading.kind.isTerminal = true
      · rw [if_pos hterminal]
        exact clean_add (by simp [Node.isFiller, hterminal]) _
      · rw [if_neg hterminal]
        exact clean_add_filler (by simp [Node.isFiller, hterminal]) _

theorem addLeaf_pending (b : Builder) (pending : List Comment) (kind : TokenKind) (leaf : Leaf) :
    ({ b with pending := pending }).addLeaf kind leaf =
      { b.addLeaf kind leaf with pending := pending } := by
  obtain ⟨root, _ | ⟨scope, outer⟩, waiting⟩ := b <;>
    cases hkind : kind.isTerminal <;> simp [addLeaf, add, hkind]

end Builder

/-! ### Choices -/

namespace Matcher

variable {m : Matcher} {t : Token}

/-- A token that has been matched has been read as the kind asked for. -/
theorem exists_reading_of_matchAs {kind : TokenKind} {next : Matcher} {read : Token}
    (h : m.matchAs kind t = .ok (some (next, read))) :
    ∃ reading, read.reading = some reading ∧ reading.kind = kind := by
  rw [matchAs] at h
  split at h
  · cases h
  · split at h
    · simp only [Except.ok.injEq, Option.some.injEq, Prod.mk.injEq] at h
      exact ⟨_, by rw [← h.2]; rfl, rfl⟩
    · cases h

/-- A choice among transitions is the first transition for its kind, and that
kind is one of the token. -/
theorem choose_eq_some {following : List Token} {transitions : List Transition}
    {a : Acceptance} (h : m.choose t following transitions = .ok (some a)) :
    (transitions.find? fun transition => transition.kind = a.transition.kind &&
        (!transition.lookahead || m.examplesAhead following)) = some a.transition ∧
      m.matchAs a.transition.kind t = .ok (some (a.matcher, a.token)) := by
  fun_induction m.choose t following transitions with
  | case1 | case3 => cases h
  | case2 transition transitions hmatch ih =>
      obtain ⟨hfind, ha⟩ := ih h
      have hne : transition.kind ≠ a.transition.kind := by
        intro heq
        rw [heq, ha] at hmatch
        cases hmatch
      rw [List.find?_cons, decide_eq_false hne]
      exact ⟨hfind, ha⟩
  | case4 transition transitions next read hmatch hskip ih =>
      obtain ⟨hfind, ha⟩ := ih h
      have happlies : (!transition.lookahead || m.examplesAhead following) = false := by
        simpa using hskip
      rw [List.find?_cons, happlies, Bool.and_false]
      exact ⟨hfind, ha⟩
  | case5 transition transitions next read hmatch hskip =>
      obtain rfl : Acceptance.mk transition next read = a := by simpa using h
      have happlies : (!transition.lookahead || m.examplesAhead following) = true := by
        simpa [imp_iff_not_or] using hskip
      rw [List.find?_cons, happlies, decide_eq_true rfl]
      exact ⟨rfl, hmatch⟩

end Matcher

namespace Reader

/-! ### Errors stay -/

theorem errors_addError_ne_nil (r : Reader) (e : SyntaxError) : (r.addError e).errors ≠ [] := by
  rw [addError]
  split <;> simp

theorem errors_closeRule {r : Reader} (h : r.closeRule.errors = []) : r.errors = [] := by
  rw [closeRule] at h
  split at h
  · exact h
  · split at h
    · exact h
    · exact absurd h (errors_addError_ne_nil _ _)

theorem errors_closeRules {n : Nat} {r : Reader} (h : (r.closeRules n).errors = []) :
    r.errors = [] := by
  induction n generalizing r with
  | zero => exact h
  | succ n ih => exact errors_closeRule (ih h)

/-- Closing a rule without an error is closing it in the builder. -/
theorem closeRule_of_errors {r : Reader} (hfailure : r.failure = none)
    (h : r.closeRule.errors = []) :
    r.builder.close.2 = none ∧ r.closeRule = { r with builder := r.builder.close.1 } := by
  have hnot : ¬r.failure.isSome := by simp [hfailure]
  rw [closeRule, if_neg hnot] at h ⊢
  rcases hclose : r.builder.close with ⟨b, _ | e⟩
  · exact ⟨rfl, rfl⟩
  · rw [hclose] at h
    exact absurd h (errors_addError_ne_nil _ _)

/-- Closing rules without an error is closing them in the builder. -/
theorem closeRules_of_errors {n : Nat} {r : Reader} (hfailure : r.failure = none)
    (h : (r.closeRules n).errors = []) :
    ∃ b, r.builder.closeMany n = some b ∧ r.closeRules n = { r with builder := b } := by
  induction n generalizing r with
  | zero => exact ⟨r.builder, rfl, rfl⟩
  | succ n ih =>
      rw [closeRules] at h ⊢
      obtain ⟨hnone, hfirst⟩ := closeRule_of_errors hfailure (errors_closeRules h)
      rw [hfirst] at h ⊢
      obtain ⟨b, hb, hothers⟩ := ih (r := { r with builder := r.builder.close.1 }) hfailure h
      refine ⟨b, ?_, hothers⟩
      rw [Builder.closeMany]
      rcases hclose : r.builder.close with ⟨b', e⟩
      rw [hclose] at hnone hb
      obtain rfl : e = none := hnone
      exact hb

/-- A token that is taken without an error is accepted, and what its transition
closes can be folded. -/
theorem take_of_errors {r : Reader} {t : Token} {ts : List Token} (hfailure : r.failure = none)
    (h : (r.take t ts).errors = []) (hfine : (r.take t ts).failure = none) :
    ∃ a b, r.choice t ts = .ok (some a) ∧ r.builder.move a.transition = some b := by
  rw [take] at h hfine
  rcases hchoice : r.choice t ts with e | _ | a
  · rw [hchoice] at hfine
    cases hfine
  · rw [hchoice] at h
    simp only [reject] at h
    split at h
    · exact absurd h (errors_addError_ne_nil _ _)
    · exact absurd h (errors_addError_ne_nil _ _)
  · rw [hchoice] at h
    simp only [accept] at h
    let r' : Reader := { r with matcher := a.matcher }
    have herrors : (closeRules a.transition.closes r').errors = [] := by
      split at h
      · exact h
      · exact h
    obtain ⟨b, hb, -⟩ := closeRules_of_errors (r := r') hfailure herrors
    refine ⟨a, a.transition.opens.foldl Builder.start b, rfl, ?_⟩
    rw [Builder.move]
    exact congrArg (Option.map _) hb

/-- Closing rules that can be folded is closing them in the builder. -/
theorem closeRules_of_closeMany {n : Nat} {r : Reader} {b : Builder}
    (hfailure : r.failure = none) (h : r.builder.closeMany n = some b) :
    r.closeRules n = { r with builder := b } := by
  induction n generalizing r with
  | zero =>
      obtain rfl := Option.some.inj h
      rfl
  | succ n ih =>
      have hnot : ¬r.failure.isSome := by simp [hfailure]
      rw [Builder.closeMany] at h
      rw [closeRules, closeRule, if_neg hnot]
      rcases hclose : r.builder.close with ⟨b', _ | e⟩
      · rw [hclose] at h
        exact ih (r := { r with builder := b' }) hfailure h
      · rw [hclose] at h
        cases h

theorem take_of_move {r : Reader} {t : Token} {ts : List Token} {a : Acceptance} {b : Builder}
    (hfailure : r.failure = none) (hchoice : r.choice t ts = .ok (some a))
    (hmove : r.builder.move a.transition = some b) :
    r.take t ts =
      { r with
        matcher := a.matcher
        builder := b.build a.token
        state := a.transition.next } := by
  obtain ⟨closed, hclosed, rfl⟩ := Option.map_eq_some_iff.mp hmove
  have hrules := closeRules_of_closeMany (r := { r with matcher := a.matcher }) hfailure hclosed
  rw [take, hchoice]
  simp only [accept, hrules]
  rw [if_neg (by simp [hfailure])]

/-! ### The state and the matcher behind a token -/

theorem addError_frame (r : Reader) (e : SyntaxError) :
    (r.addError e).state = r.state ∧ (r.addError e).matcher = r.matcher := by
  rw [addError]
  split
  · exact ⟨rfl, rfl⟩
  · exact ⟨rfl, rfl⟩

/-- A reader fails with a token whose language cannot be used. -/
theorem choice_ne_error {r : Reader} {t : Token} {ts : List Token}
    (h : (r.take t ts).failure = none) (e : DialectError) : r.choice t ts ≠ .error e := by
  intro hchoice
  rw [take, hchoice] at h
  cases h

/-- Skipping a line changes neither the state nor the matcher. -/
theorem take_of_choice_eq_none {r : Reader} {t : Token} {ts : List Token}
    (h : r.choice t ts = .ok none) :
    (r.take t ts).state = r.state ∧ (r.take t ts).matcher = r.matcher := by
  simp only [take, h, reject]
  split
  · exact addError_frame r _
  · exact addError_frame r _

theorem closeRules_frame (n : Nat) (r : Reader) :
    (r.closeRules n).state = r.state ∧ (r.closeRules n).matcher = r.matcher := by
  induction n generalizing r with
  | zero => exact ⟨rfl, rfl⟩
  | succ n ih =>
      obtain ⟨hstate, hmatcher⟩ := ih r.closeRule
      rw [closeRules, hstate, hmatcher, closeRule]
      split
      · exact ⟨rfl, rfl⟩
      · split
        · exact ⟨rfl, rfl⟩
        · exact addError_frame _ _

/-- The transition that accepts a token says which state is behind it. -/
theorem take_of_choice {r : Reader} {t : Token} {ts : List Token} {a : Acceptance}
    (h : r.choice t ts = .ok (some a)) :
    (r.take t ts).matcher = a.matcher ∧
      ((r.take t ts).failure = none → (r.take t ts).state = a.transition.next) := by
  have htake : r.take t ts = { r with matcher := a.matcher }.accept a.transition a.token := by
    rw [take, h]
  have hmatcher := (closeRules_frame a.transition.closes { r with matcher := a.matcher }).2
  rw [htake, accept]
  split
  · next hfailure =>
      refine ⟨hmatcher, fun hfine => ?_⟩
      rw [hfine] at hfailure
      cases hfailure
  · exact ⟨hmatcher, fun _ => rfl⟩

/-! ### A reader in a draft -/

/-- The reader stands where the draft stands, and its builder holds what the
draft holds. -/
structure Drafts (r : Reader) (d : Draft Leaf) : Prop where
  state : r.state = d.state
  builder : r.builder.clean = d.builder r.builder.pending

/-- Where the draft behind an accepted token stands, and what it holds. -/
theorem Drafts.push {r : Reader} {d : Draft Leaf} (h : r.Drafts d) (hread : WellRead d.lines)
    {t : Token} {ts : List Token} {a : Acceptance} {b : Builder}
    (hchoice : r.choice t ts = .ok (some a)) (hmove : r.builder.move a.transition = some b) :
    ∃ reading d', a.token.reading = some reading ∧ reading.kind = a.transition.kind ∧
      d.push reading.kind (r.matcher.examplesAhead ts)
        (Leaf.ofToken r.builder.pending a.token reading) = some d' ∧
      d'.state = a.transition.next ∧
      (b.build a.token).clean = d'.builder (pendingAfter r.builder.pending a.token reading) := by
  obtain ⟨hselect, hmatch⟩ := Matcher.choose_eq_some hchoice
  obtain ⟨reading, hreading, hkind⟩ := Matcher.exists_reading_of_matchAs hmatch
  let pending := r.builder.pending
  let leaf := Leaf.ofToken pending a.token reading
  have hselect : d.state.select reading.kind (r.matcher.examplesAhead ts) =
      some a.transition := by
    rw [← h.state, hkind]
    exact hselect
  have hstate := d.push_state reading.kind (r.matcher.examplesAhead ts) leaf
  rw [hselect, Option.map_some] at hstate
  obtain ⟨d', hpush, hd'⟩ := Option.map_eq_some_iff.mp hstate
  have hmove' : (d.builder pending).move a.transition = some b.clean := by
    rw [← h.builder, Builder.move_clean, hmove]
    rfl
  have heven : reading.kind.endsTable → d.Even := by
    intro hends
    refine Classical.byContradiction fun hodd => ?_
    rw [Draft.move_of_not_even hodd hread hends hselect] at hmove'
    cases hmove'
  obtain ⟨t, ht, moved, hmoved, hadd⟩ := Draft.builds_push hpush hread heven pending
  obtain rfl := Option.some.inj (ht.symm.trans hselect)
  obtain rfl := Option.some.inj (hmoved.symm.trans hmove')
  have hpending : b.pending = pending := by
    have hsame := congrArg Builder.pending
      (b.clean.addLeaf_pending b.pending reading.kind leaf)
    change (b.clean.addLeaf reading.kind leaf).pending = b.pending at hsame
    rw [hadd] at hsame
    exact hsame.symm
  refine ⟨reading, d', hreading, hkind, hpush, hd', ?_⟩
  rw [Builder.clean_build b hreading, Builder.addLeaf_pending, hpending, hadd]
  rfl

/-- What a transition closes can be folded, unless it ends an uneven table. -/
theorem Drafts.exists_move {r : Reader} {d : Draft Leaf} (h : r.Drafts d)
    (hread : WellRead d.lines) {t : Token} {ts : List Token} {a : Acceptance}
    (hchoice : r.choice t ts = .ok (some a))
    (heven : a.transition.kind.endsTable → d.Even) :
    ∃ b, r.builder.move a.transition = some b := by
  obtain ⟨hselect, hmatch⟩ := Matcher.choose_eq_some hchoice
  obtain ⟨reading, -, -⟩ := Matcher.exists_reading_of_matchAs hmatch
  have hselect : d.state.select a.transition.kind (r.matcher.examplesAhead ts) =
      some a.transition := by
    rw [← h.state]
    exact hselect
  let leaf := Leaf.ofToken r.builder.pending a.token reading
  have hstate := d.push_state a.transition.kind (r.matcher.examplesAhead ts) leaf
  rw [hselect, Option.map_some] at hstate
  obtain ⟨d', hpush, -⟩ := Option.map_eq_some_iff.mp hstate
  obtain ⟨u, hu, moved, hmoved, -⟩ :=
    Draft.builds_push hpush hread heven r.builder.pending
  obtain rfl := Option.some.inj (hu.symm.trans hselect)
  rw [← h.builder, Builder.move_clean] at hmoved
  obtain ⟨b, hb, -⟩ := Option.map_eq_some_iff.mp hmoved
  exact ⟨b, hb⟩

/-- How taking a token without an error goes on to the draft behind the token. -/
structure TakesTo (r : Reader) (d : Draft Leaf) (t : Token) (ts : List Token) (a : Acceptance)
    (reading : Reading) (d' : Draft Leaf) : Prop where
  choice : r.choice t ts = .ok (some a)
  errors : (r.take t ts).errors = r.errors
  failure : (r.take t ts).failure = none
  state : (r.take t ts).state = a.transition.next
  matcher : (r.take t ts).matcher = a.matcher
  tokenReading : a.token.reading = some reading
  kind : reading.kind = a.transition.kind
  push : d.push reading.kind (r.matcher.examplesAhead ts)
    (Leaf.ofToken r.builder.pending a.token reading) = some d'
  pending : (r.take t ts).builder.pending =
    pendingAfter r.builder.pending a.token reading
  drafts : (r.take t ts).Drafts d'
  wellRead : WellRead d'.lines

theorem Drafts.takesTo {r : Reader} {d : Draft Leaf} (h : r.Drafts d) (hread : WellRead d.lines)
    {t : Token} {ts : List Token} {a : Acceptance} {b : Builder} (hfailure : r.failure = none)
    (hchoice : r.choice t ts = .ok (some a)) (hmove : r.builder.move a.transition = some b) :
    ∃ reading d', r.TakesTo d t ts a reading d' := by
  obtain ⟨reading, d', hreading, hkind, hpush, hstate, hbuild⟩ := h.push hread hchoice hmove
  have htake := take_of_move hfailure hchoice hmove
  have hpending : (b.build a.token).pending =
      pendingAfter r.builder.pending a.token reading :=
    congrArg Builder.pending hbuild
  refine ⟨reading, d', hchoice, ?_, ?_, ?_, ?_, hreading, hkind, hpush, ?_, ?_, ?_⟩
  · rw [htake]
  · rw [htake]
    exact hfailure
  · rw [htake]
  · rw [htake]
  · rw [htake]
    exact hpending
  · rw [htake]
    exact ⟨hstate.symm, by rw [hbuild, hpending]⟩
  · rw [Draft.lines_push hpush, WellRead.append_iff]
    exact ⟨hread, wellRead_lineOf rfl⟩

theorem errors_take {r : Reader} {t : Token} {ts : List Token}
    (h : (r.take t ts).errors = []) : r.errors = [] := by
  rw [take] at h
  split at h
  · exact h
  · simp only [reject] at h
    split at h
    · exact absurd h (errors_addError_ne_nil _ _)
    · exact absurd h (errors_addError_ne_nil _ _)
  · next a _ =>
      rw [accept] at h
      split at h
      · exact errors_closeRules (r := { r with matcher := a.matcher }) h
      · exact errors_closeRules (r := { r with matcher := a.matcher }) h

theorem errors_read {r : Reader} {ts : List Token} (h : (r.read ts).errors = []) :
    r.errors = [] := by
  induction ts generalizing r with
  | nil => exact h
  | cons t ts ih =>
      rw [read] at h
      split at h
      · exact h
      · exact errors_take (ih h)

theorem failure_read {r : Reader} {ts : List Token} (h : (r.read ts).failure = none) :
    r.failure = none := by
  induction ts generalizing r with
  | nil => exact h
  | cons t ts ih =>
      rw [read] at h
      split at h
      · exact h
      · next hnot => simpa using hnot

/-- What a reader without errors has made of tokens: it stands in a draft that
holds the tokens behind the lines that were there before. -/
structure ReadsTo (r : Reader) (d : Draft Leaf) (ts : List Token) (d' : Draft Leaf) : Prop where
  drafts : (r.read ts).Drafts d'
  lines : d'.lines = d.lines ++
    leavesOf r.builder.pending ((r.acceptances ts).map Acceptance.token)
  tokens : (r.acceptances ts).map (fun a => a.token.fresh) = ts.map Token.fresh

theorem Drafts.readsTo {r : Reader} {d : Draft Leaf} (h : r.Drafts d)
    (hread : WellRead d.lines) {ts : List Token} (herrors : (r.read ts).errors = [])
    (hfine : (r.read ts).failure = none) : ∃ d', r.ReadsTo d ts d' := by
  induction ts generalizing r d with
  | nil => exact ⟨d, h, (List.append_nil _).symm, rfl⟩
  | cons t ts ih =>
      have hfailure := failure_read hfine
      have hnot : ¬r.failure.isSome := by simp [hfailure]
      rw [read, if_neg hnot] at herrors hfine
      obtain ⟨a, b, hchoice, hmove⟩ :=
        take_of_errors hfailure (errors_read herrors) (failure_read hfine)
      obtain ⟨reading, d₁, hfirst⟩ := h.takesTo hread hfailure hchoice hmove
      obtain ⟨d₂, hothers⟩ := ih hfirst.drafts hfirst.wellRead herrors hfine
      have haccepted : r.acceptances (t :: ts) = a :: (r.take t ts).acceptances ts := by
        rw [acceptances, if_neg hnot, hchoice]
        rfl
      refine ⟨d₂, ?_, ?_, ?_⟩
      · rw [read, if_neg hnot]
        exact hothers.drafts
      · rw [haccepted, List.map_cons, leavesOf, hfirst.tokenReading, hothers.lines,
          Draft.lines_push hfirst.push, hfirst.pending, List.append_assoc]
      · have hsame := Matcher.fresh_of_matchAs (Matcher.choose_eq_some hchoice).2
        rw [haccepted, List.map_cons, List.map_cons, hsame, hothers.tokens]

/-- The end of the source is accepted only as such. -/
theorem kind_of_choice_eof {r : Reader} {n : Nat} {ts : List Token} {a : Acceptance}
    (h : r.choice (.eof n) ts = .ok (some a)) : a.transition.kind = .eof := by
  obtain ⟨-, hmatch⟩ := Matcher.choose_eq_some h
  rw [Matcher.matchAs] at hmatch
  split at hmatch
  · cases hmatch
  · next content hcontent =>
      rw [Token.eof, Matcher.content?] at hcontent
      split at hcontent
      · assumption
      · cases hcontent

/-- At the end of the source a reader without errors has finished a document. -/
theorem Drafts.state_finished {r : Reader} {d : Draft Leaf} (h : r.Drafts d)
    (hread : WellRead d.lines) {ts : List Token} {n : Nat}
    (herrors : (r.read (ts ++ [.eof n])).errors = [])
    (hfine : (r.read (ts ++ [.eof n])).failure = none) :
    (r.read (ts ++ [.eof n])).state = .finished := by
  induction ts generalizing r d with
  | nil =>
      have hfailure := failure_read hfine
      have hnot : ¬r.failure.isSome := by simp [hfailure]
      rw [List.nil_append, read, if_neg hnot] at herrors hfine ⊢
      obtain ⟨a, b, hchoice, hmove⟩ :=
        take_of_errors hfailure (errors_read herrors) (failure_read hfine)
      obtain ⟨reading, d₁, hlast⟩ := h.takesTo hread hfailure hchoice hmove
      have hpush := hlast.push
      rw [hlast.kind, kind_of_choice_eof hchoice] at hpush
      obtain ⟨document, -, rfl⟩ := Option.map_eq_some_iff.mp hpush
      exact hlast.drafts.state
  | cons t ts ih =>
      have hfailure := failure_read hfine
      have hnot : ¬r.failure.isSome := by simp [hfailure]
      rw [List.cons_append, read, if_neg hnot] at herrors hfine ⊢
      obtain ⟨a, b, hchoice, hmove⟩ :=
        take_of_errors hfailure (errors_read herrors) (failure_read hfine)
      obtain ⟨reading, d₁, hfirst⟩ := h.takesTo hread hfailure hchoice hmove
      exact ih hfirst.drafts hfirst.wellRead herrors hfine

/-- What a reader without errors comes to is the document of the tree that it
has finished. -/
theorem Drafts.result? {r : Reader} {t : Option (Tree.Feature Leaf)}
    (h : r.Drafts (.finished t)) :
    r.builder.close.2 = none ∧ r.builder.close.1.result? = some (Tree.document t) := by
  have hclose := Builder.close_clean r.builder
  rw [h.builder] at hclose
  have hfold : ((Draft.finished t).builder r.builder.pending).close =
      (⟨[.document (Tree.document t)], [], r.builder.pending⟩, none) := by
    cases t <;> rfl
  rw [hfold] at hclose
  refine ⟨(congrArg Prod.snd hclose).symm, ?_⟩
  have hroot : Node.cleanAll r.builder.close.1.root = [.document (Tree.document t)] :=
    (congrArg (fun x => x.1.root) hclose).symm
  have hfound : r.builder.close.1.root.filterMap Node.document? = [Tree.document t] := by
    rw [← Fold.filterMap_cleanAll_eq (fun _ => rfl) (fun _ _ => rfl), hroot]
    rfl
  rw [Builder.result?, ← List.head?_filterMap, List.filterMap_reverse, hfound]
  rfl

theorem exists_finished_of_state {d : Draft Leaf} (h : d.state = .finished) :
    ∃ document, d = .finished document := by
  cases d with
  | finished document => exact ⟨document, rfl⟩
  | background header b => cases b <;> cases h
  | scenario f tags b => cases b <;> cases h
  | outline f tags b => cases b <;> cases h
  | start | language | featureTags | feature | definitionTags | examplesTags | examples
  | examplesTable => cases h

/-- A reader at the start of a document stands at the start of a draft. -/
theorem start_drafts (limit : Option Nat) (matcher : Matcher) :
    (start limit matcher).Drafts .start :=
  ⟨rfl, rfl⟩

/-- A document comes of a reader without errors, and is the result of its builder. -/
theorem of_outcome_eq_ok {r : Reader} {document : Document} (h : r.outcome = .ok document) :
    r.errors = [] ∧ r.failure = none ∧ document = r.builder.result?.getD {} := by
  rw [outcome] at h
  split at h
  · cases h
  · next hfailure =>
      split at h
      · next hempty => exact ⟨List.isEmpty_iff.mp hempty, hfailure, (Except.ok.inj h).symm⟩
      · cases h

theorem failure_of_closeRule {r : Reader} (h : r.closeRule.failure = none) : r.failure = none := by
  cases hfailure : r.failure with
  | none => rfl
  | some failure =>
      rw [closeRule, if_pos (by rw [hfailure]; rfl), hfailure] at h
      cases h

/-- A document comes of tokens that are read without errors, and is the document of the
tree that they finish. -/
theorem of_complete_eq_ok {r : Reader} {ts : List Token} {document : Document}
    (h : (r.complete ts).outcome = .ok document) :
    (r.read ts).errors = [] ∧ (r.read ts).failure = none ∧
      ∀ t, (r.read ts).Drafts (.finished t) → document = Tree.document t := by
  obtain ⟨herrors, hfine, hresult⟩ := of_outcome_eq_ok h
  rw [complete] at herrors hfine hresult
  have hreadFine := failure_of_closeRule hfine
  refine ⟨errors_closeRule herrors, hreadFine, fun t ht => ?_⟩
  obtain ⟨-, hclosed⟩ := closeRule_of_errors hreadFine herrors
  rw [hresult, hclosed, ht.result?.2, Option.getD_some]

/-- A document that has been read is the document of a tree, whose lines are the
tokens that have been accepted, and all tokens have been accepted. -/
theorem exists_tree_of_outcome {limit : Option Nat} {m : Matcher} {ts : List Token} {n : Nat}
    {document : Document}
    (h : ((start limit m).complete (ts ++ [Token.eof n])).outcome = .ok document) :
    ∃ t, document = Tree.document t ∧
      Tree.lines t =
        leavesOf [] (((start limit m).acceptances (ts ++ [.eof n])).map Acceptance.token) ∧
      ((start limit m).acceptances (ts ++ [.eof n])).map (fun a => a.token.fresh) =
        (ts ++ [Token.eof n]).map Token.fresh := by
  obtain ⟨herrors, hfine, hdocument⟩ := of_complete_eq_ok h
  obtain ⟨d, hd⟩ := (start_drafts limit m).readsTo WellRead.nil herrors hfine
  have hstate := (start_drafts limit m).state_finished WellRead.nil herrors hfine
  obtain ⟨t, rfl⟩ := exists_finished_of_state (hd.drafts.state.symm.trans hstate)
  exact ⟨t, hdocument t hd.drafts, hd.lines, hd.tokens⟩

end Reader

end Gherkin
