import Gherkin.Proofs.Draft.Acceptance
import Gherkin.Proofs.Realisation.Choices
import Gherkin.Proofs.Run.Steps

/-!
# Doc strings in a run

The matcher and the state both know whether a doc string is open.  A separator
that is read opens or closes it in the matcher, also on trial, while the state
changes with the transition; the two stay in step because a separator that is
read is always accepted, and because a look ahead does not try separators.

Inside a doc string every line is content, up to the first one that starts with
the separator of its opening line.
-/

namespace Gherkin

namespace State

/-- The states inside doc strings, one for each block that has steps. -/
theorem inDocString_iff (s : State) : s.inDocString = true ↔ s.number ∈ [28, 30, 32] := by
  revert s
  decide

/-- A separator closes no rule, and it opens a doc string if there is none. -/
theorem opens_of_separator {s : State} {t : Transition} (ht : t ∈ s.transitions)
    (hkind : t.kind = .docStringSeparator) :
    t.closes = 0 ∧ t.opens = if s.inDocString then [] else [.docString] := by
  revert s t
  decide

/-- Inside a doc string a separator is tried first, and then free text. -/
theorem transitions_of_inDocString {s : State} (h : s.inDocString = true) :
    ∃ separator, s.transitions = [separator, s.stay .other] ∧
      separator.kind = .docStringSeparator ∧ separator.lookahead = false ∧
      s.expected = [.docStringSeparator, .other] := by
  cases s with
  | steps block place =>
      cases place with
      | docString => exact ⟨_, rfl, rfl, rfl, rfl⟩
      | _ => cases h
  | _ => cases h

end State

/-- What a line inside a doc string says. -/
def OpenDocString.content (opened : OpenDocString) (l : Line) : String :=
  String.ofList (opened.separator.unescape (l.dropIndent opened.indent))

namespace Matcher

variable {m : Matcher}

/-- Outside doc strings free text is the line as it is written. -/
theorem freeText_of_docString_eq_none (h : m.docString = none) (l : Line) :
    m.freeText l = l.raw := by
  have hnone : ¬l.indent < 0 := Nat.not_lt_zero _
  rw [freeText, h, Line.raw, Line.dropIndent, if_neg hnone, List.drop_zero]

/-- A line inside a doc string, without its indentation and its escapes. -/
theorem freeText_of_docString_eq_some {opened : OpenDocString} (h : m.docString = some opened)
    (l : Line) : m.freeText l = opened.content l := by
  rw [freeText, h, OpenDocString.content]

variable {t : Token} {l : Line}

/-- Every line can be read as free text. -/
theorem matchAs_other (m : Matcher) (h : t.line = some l) :
    m.matchAs .other t = .ok (some (m, t.readAs
      { text := some (m.freeText l), indent := 0, kind := .other, dialect := m.dialect })) := by
  rw [matchAs, h]
  rfl

/-- Inside a doc string only a line that starts with its separator is one. -/
theorem matchAs_separator {opened : OpenDocString} (hdoc : m.docString = some opened)
    (h : t.line = some l) :
    if l.startsWith opened.separator.text then
      ∃ read, m.matchAs .docStringSeparator t = .ok (some ({ m with docString := none }, read))
    else m.matchAs .docStringSeparator t = .ok none := by
  have hcontent : m.content? .docStringSeparator t.line = m.separator? l := by rw [h]; rfl
  have hafter : t.line.bind m.docStringAfter = none := by
    rw [h, Option.bind_some, docStringAfter, hdoc]
  rw [matchAs, hcontent, separator?, hdoc]
  split
  · next hstarts =>
      simp only [hstarts, if_true, after, hafter]
      exact ⟨_, rfl⟩
  · next hnot =>
      rw [Bool.not_eq_true] at hnot
      simp only [hnot]
      rfl

/-- The end of the source is neither a separator nor free text. -/
theorem matchAs_eof_eq_none (h : t.line = none) {kind : TokenKind} (hkind : kind ≠ .eof) :
    m.matchAs kind t = .ok none := by
  have hcontent : m.content? kind t.line = none := by
    rw [h]
    exact if_neg hkind
  rw [matchAs, hcontent]

end Matcher

namespace Run

/-! ### The points of a run -/

/-- The runs in front of each attempt to read a token as a kind, and behind each look ahead. -/
def attempts (r : Run) (t : Token) : List Transition → List Run
  | [] => [r]
  | transition :: transitions =>
    r ::
      match r.matcher.matchAs transition.kind t with
      | .ok none => r.attempts t transitions
      | .error _ => []
      | .ok (some (matcher, read)) =>
        let matched := { r with matcher := matcher }.note (r.matcher.matchEvents transition.kind t)
        if transition.lookahead then
          match matched.lookAhead with
          | (looked, some true) => [looked]
          | (looked, some false) => looked :: looked.attempts read transitions
          | (looked, none) => [looked]
        else []

/-- The points that a step passes, the one in front of it first. -/
def points (r : Run) : List Run :=
  r ::
    if r.isOver then []
    else
      match r.next with
      | (fetched, some t) => fetched.attempts t fetched.state.transitions
      | (_, none) => []

/-- While a token is tried, the state and the matcher stay as they are. -/
theorem attempts_frame {transitions : List Transition}
    (htags : ∀ u ∈ transitions, u.lookahead → u.kind = .tagLine) (r : Run) (t : Token) :
    ∀ r' ∈ r.attempts t transitions, r'.state = r.state ∧ r'.matcher = r.matcher := by
  induction transitions generalizing r t with
  | nil =>
      intro r' hr'
      obtain rfl := List.mem_singleton.mp hr'
      exact ⟨rfl, rfl⟩
  | cons transition transitions ih =>
      have ih := ih fun u hu => htags u (List.mem_cons_of_mem _ hu)
      intro r' hr'
      rw [attempts] at hr'
      rcases List.mem_cons.mp hr' with rfl | hr'
      · exact ⟨rfl, rfl⟩
      · rcases hmatch : r.matcher.matchAs transition.kind t with e | _ | ⟨next, read⟩ <;>
          rw [hmatch] at hr'
        · cases hr'
        · exact ih r t r' hr'
        · let matched :=
            { r with matcher := next }.note (r.matcher.matchEvents transition.kind t)
          simp only at hr'
          split at hr'
          · next hlookahead =>
              have hkind := htags transition List.mem_cons_self hlookahead
              rw [hkind] at hmatch
              have hnext : next = r.matcher := Matcher.eq_of_matchAs (by decide) (by decide) hmatch
              have hlooks := matched.lookAhead_looksAhead
              generalize hlook : Run.lookAhead _ = result at hr'
              change matched.lookAhead = result at hlook
              rw [hlook] at hlooks
              have hlooked : result.1.state = r.state ∧ result.1.matcher = r.matcher :=
                ⟨hlooks.state, hlooks.matcher.trans hnext⟩
              rcases result with ⟨looked, _ | _ | _⟩
              · obtain rfl := List.mem_singleton.mp hr'
                exact hlooked
              · rcases List.mem_cons.mp hr' with rfl | hr'
                · exact hlooked
                · obtain ⟨hstate', hmatcher'⟩ := ih looked read r' hr'
                  exact ⟨hstate'.trans hlooked.1, hmatcher'.trans hlooked.2⟩
              · obtain rfl := List.mem_singleton.mp hr'
                exact hlooked
          · cases hr'

/-! ### The matcher and the state stay in step -/

/-- The matcher holds a separator when the state is inside a doc string, and only then. -/
def Agrees (r : Run) : Prop :=
  r.matcher.docString.isSome = r.state.inDocString

theorem Agrees.of_frame {r r' : Run} (h : r.Agrees) (hmatcher : r'.matcher = r.matcher)
    (hstate : r'.state = r.state) : r'.Agrees := by
  rw [Agrees, hmatcher, hstate]
  exact h

/-- A separator opens or closes a doc string for both of them. -/
theorem Agrees.accept {r chosen : Run} {transition : Transition} {t read : Token}
    (h : r.Agrees) (hfailure : chosen.failure = none) (hstate : chosen.state = r.state)
    (hmem : transition ∈ r.state.transitions)
    (hmatch : r.matcher.matchAs transition.kind t = .ok (some (chosen.matcher, read))) :
    (chosen.accept transition read).Agrees := by
  have hdoc := Matcher.docString_of_matchAs hmatch
  have hnext := State.inDocString_next hmem
  obtain ⟨hmatcher, hbehind | ⟨hbehind, hfailed⟩⟩ := chosen.accept_frame transition read
  · rw [Agrees, hmatcher, hbehind, hdoc, hnext, h]
  · have hkind : transition.kind ≠ .docStringSeparator := by
      intro hkind
      obtain ⟨hcloses, -⟩ := State.opens_of_separator hmem hkind
      rw [hcloses, closeRules, hfailure] at hfailed
      cases hfailed
    rw [if_neg hkind] at hdoc
    rw [Agrees, hmatcher, hbehind, hstate, hdoc, h]

theorem Agrees.take {r : Run} (h : r.Agrees) (hfailure : r.failure = none) (t : Token) :
    (r.take t).Agrees := by
  have hmatcher := choose_matcher (lookahead_only_tags r.state) r t
  cases r.takes t with
  | fails chosen hchoose _ htake =>
      rw [hchoose] at hmatcher
      rw [htake]
      exact h.of_frame (hmatcher.1 rfl) (chooses_of_eq hchoose).state
  | skips chosen e hchoose _ htake =>
      rw [hchoose] at hmatcher
      have hchosen := h.of_frame (hmatcher.1 rfl) (chooses_of_eq hchoose).state
      rw [htake]
      exact hchosen.of_frame (matcher_addError chosen e) (state_addError chosen e)
  | accepts chosen transition read hchoose htake =>
      rw [hchoose] at hmatcher
      have hchooses := chooses_of_eq hchoose
      obtain ⟨hmem, hfine, -⟩ := hchooses.accepted transition read rfl
      rw [htake]
      exact h.accept (hfine.trans hfailure) hchooses.state hmem (hmatcher.2 transition read rfl)

theorem Agrees.step {r : Run} (h : r.Agrees) : r.step.Agrees := by
  cases r.stepping with
  | stays _ hstep => rwa [hstep]
  | unreadable fetched _ hnext hstep =>
      have hfetched := fetched_of_eq hnext
      rw [hstep]
      exact h.of_frame hfetched.matcher hfetched.state
  | takes fetched t hover hnext hstep =>
      have hfetched := fetched_of_eq hnext
      have hagrees : fetched.Agrees := h.of_frame hfetched.matcher hfetched.state
      have hfine := (hfetched.answered rfl).trans (failure_of_isOver_eq_false hover).1
      rw [hstep]
      exact (hagrees.take hfine t).of_frame rfl rfl

theorem Agrees.steps {r : Run} (h : r.Agrees) (n : Nat) : (steps n r).Agrees :=
  steps_of_step (P := Run.Agrees) Agrees.step h n

/-- Up to the attempt that accepts a token, a step changes neither the state nor the matcher. -/
theorem points_frame (r : Run) :
    ∀ point ∈ r.points, point.state = r.state ∧ point.matcher = r.matcher := by
  intro point hpoint
  rcases List.mem_cons.mp hpoint with rfl | hpoint
  · exact ⟨rfl, rfl⟩
  · split at hpoint
    · cases hpoint
    · rcases hnext : r.next with ⟨fetched, _ | t⟩ <;> rw [hnext] at hpoint
      · cases hpoint
      · have hfetched := fetched_of_eq hnext
        obtain ⟨hstate', hmatcher'⟩ :=
          attempts_frame (lookahead_only_tags fetched.state) fetched t point hpoint
        exact ⟨hstate'.trans hfetched.state, hmatcher'.trans hfetched.matcher⟩

/-! ### Content -/

/-- The line that the next step takes, if it takes one. -/
def upcoming (r : Run) : Option Line :=
  if r.isOver then none else r.next.2.bind Token.line

theorem exists_of_upcoming {r : Run} {l : Line} (h : r.upcoming = some l) :
    ∃ fetched t, r.isOver = false ∧ r.next = (fetched, some t) ∧ t.line = some l := by
  rw [upcoming] at h
  split at h
  · cases h
  · next hover =>
      rw [Bool.not_eq_true] at hover
      obtain ⟨t, ht, hline⟩ := Option.bind_eq_some_iff.mp h
      exact ⟨r.next.1, t, hover, Prod.ext rfl ht, hline⟩

end Run

namespace Builder

/-- The lines of the doc string that is the innermost open rule. -/
def content? (b : Builder) : Option (List String) :=
  match b.scopes with
  | ⟨.docString, children⟩ :: _ => some ((Fold.leaves .other children).map Leaf.text)
  | _ => none

variable {b : Builder} {read : Token} {reading : Reading}

theorem content?_add (b : Builder) (leaf : Leaf) :
    (b.add (.token leaf)).content? =
      b.content?.map fun lines =>
        if leaf.reading.kind = .other then lines ++ [leaf.text] else lines := by
  obtain ⟨root, scopes, pending⟩ := b
  cases scopes with
  | nil => rfl
  | cons scope outer =>
      obtain ⟨rule, children⟩ := scope
      have hleaves : (Fold.leaves .other (children ++ [.token leaf])).map Leaf.text =
          if leaf.reading.kind = .other then
            (Fold.leaves .other children).map Leaf.text ++ [leaf.text]
          else (Fold.leaves .other children).map Leaf.text := by
        rw [Fold.leaves, Fold.leaves, List.filterMap_append, List.map_append]
        by_cases hkind : leaf.reading.kind = .other
        · simp [Node.leaf?, hkind]
        · simp [Node.leaf?, hkind]
      cases rule with
      | docString => exact congrArg some hleaves
      | _ => rfl

/-- Free text is another line of the doc string, and a separator is none. -/
theorem content?_build (hreading : read.reading = some reading)
    (hkind : reading.kind = .other ∨ reading.kind = .docStringSeparator) :
    (b.build read).content? =
      b.content?.map fun lines =>
        if reading.kind = .other then lines ++ [reading.text.getD ""] else lines := by
  have hcomment : reading.kind ≠ .comment := by
    rcases hkind with hkind | hkind <;> rw [hkind] <;> decide
  have hcarries : ¬carriesComments reading.kind = true := by
    rcases hkind with hkind | hkind <;> rw [hkind] <;> decide
  rw [build, hreading]
  simp only
  rw [if_neg hcomment, if_neg hcarries]
  exact content?_add b _

/-- A doc string is never dropped with an error. -/
theorem close_of_content? {lines : List String} (h : b.content? = some lines) :
    b.close.2 = none := by
  obtain ⟨root, scopes, pending⟩ := b
  cases scopes with
  | nil => cases h
  | cons scope outer =>
      obtain ⟨rule, children⟩ := scope
      cases rule with
      | docString =>
          simp only [close, Fold.node?]
          cases Fold.docString? children with
          | none => rfl
          | some d => rfl
      | _ => cases h

end Builder

namespace Run

variable {r : Run} {l : Line} {opened : OpenDocString}

/-- A line inside a doc string that does not start with its separator is one of its lines. -/
theorem step_content (h : r.Agrees) (hdoc : r.matcher.docString = some opened)
    (hl : r.upcoming = some l) (hnot : l.startsWith opened.separator.text = false) :
    r.step.state = r.state ∧ r.step.matcher = r.matcher ∧ r.step.errors = r.errors ∧
      r.step.failure = none ∧
      r.step.builder.content? = r.builder.content?.map (· ++ [opened.content l]) := by
  obtain ⟨fetched, t, hover, hnext, hline⟩ := exists_of_upcoming hl
  obtain ⟨hmatcher, hstate, hbuilder, herrors, hanswered, -⟩ := fetched_of_eq hnext
  have hfailure := hanswered rfl
  have hinside : r.state.inDocString = true := by
    rw [← h, hdoc]
    rfl
  obtain ⟨separator, htransitions, hkind, -, -⟩ := State.transitions_of_inDocString hinside
  have hmiss : fetched.matcher.matchAs separator.kind t = .ok none := by
    have hseparator := Matcher.matchAs_separator (hmatcher ▸ hdoc) hline
    rw [hnot] at hseparator
    rw [hkind]
    exact hseparator
  have hhit := fetched.matcher.matchAs_other hline
  have hlook : (r.state.stay .other).lookahead = false := rfl
  have hchoose := choose_cons_of_hit hhit hlook []
  rw [← choose_cons_of_miss hmiss, ← htransitions] at hchoose
  have hcloses : (r.state.stay .other).closes = 0 := Nat.sub_self _
  rw [step_of_choose hover hnext hchoose hcloses]
  refine ⟨rfl, hmatcher, herrors, ?_, ?_⟩
  · exact hfailure.trans (failure_of_isOver_eq_false hover).1
  · refine (Builder.content?_build rfl (.inl rfl)).trans ?_
    change fetched.builder.content?.map _ = _
    rw [hbuilder, hmatcher]
    simp only [if_true, Option.getD_some, Matcher.freeText_of_docString_eq_some hdoc]

/-- A line inside a doc string that starts with its separator closes it. -/
theorem step_closing (h : r.Agrees) (hdoc : r.matcher.docString = some opened)
    (hl : r.upcoming = some l) (hstarts : l.startsWith opened.separator.text = true) :
    r.step.matcher.docString = none ∧ r.step.errors = r.errors ∧ r.step.failure = none ∧
      r.step.builder.content? = r.builder.content? := by
  obtain ⟨fetched, t, hover, hnext, hline⟩ := exists_of_upcoming hl
  obtain ⟨hmatcher, hstate, hbuilder, herrors, hanswered, -⟩ := fetched_of_eq hnext
  have hfailure := hanswered rfl
  have hinside : r.state.inDocString = true := by
    rw [← h, hdoc]
    rfl
  obtain ⟨separator, htransitions, hkind, hlook, -⟩ :=
    State.transitions_of_inDocString hinside
  have hmem : separator ∈ r.state.transitions := by
    rw [htransitions]
    exact List.mem_cons_self
  obtain ⟨hcloses, hopens⟩ := State.opens_of_separator hmem hkind
  rw [if_pos hinside] at hopens
  have hseparator := Matcher.matchAs_separator (hmatcher ▸ hdoc) hline
  rw [if_pos hstarts, ← hkind] at hseparator
  obtain ⟨read, hread⟩ := hseparator
  have hchoose := choose_cons_of_hit hread hlook [r.state.stay .other]
  rw [← htransitions] at hchoose
  rw [step_of_choose hover hnext hchoose hcloses, hopens]
  refine ⟨rfl, herrors, ?_, ?_⟩
  · exact hfailure.trans (failure_of_isOver_eq_false hover).1
  · obtain ⟨reading, hreading, hsame⟩ := Matcher.exists_reading_of_matchAs hread
    change (fetched.builder.build read).content? = _
    rw [Builder.content?_build hreading (.inr (hsame.trans hkind)), hbuilder, hsame, hkind]
    simp

/-- The end of the source is all that can be an error inside a doc string. -/
theorem step_end (h : r.Agrees) (hdoc : r.matcher.docString = some opened)
    (hnone : r.upcoming = none) :
    r.step.matcher = r.matcher ∧ r.step.builder = r.builder ∧
      (r.step.errors = r.errors ∨
        ∃ location, r.step.errors =
          r.errors ++ [⟨.unexpectedEof [.docStringSeparator, .other], location⟩]) := by
  cases r.stepping with
  | stays _ hstep =>
      rw [hstep]
      exact ⟨rfl, rfl, .inl rfl⟩
  | unreadable fetched _ hnext hstep =>
      have hfetched := fetched_of_eq hnext
      rw [hstep]
      exact ⟨hfetched.matcher, hfetched.builder, .inl hfetched.errors⟩
  | takes fetched t hover hnext hstep =>
      obtain ⟨hmatcher, hstate, hbuilder, herrors, hanswered, -⟩ := fetched_of_eq hnext
      have hline : t.line = none := by
        rw [upcoming, hover, hnext] at hnone
        exact hnone
      have hinside : r.state.inDocString = true := by
        rw [← h, hdoc]
        rfl
      obtain ⟨separator, htransitions, hkind, -, hexpected⟩ :=
        State.transitions_of_inDocString hinside
      have hmiss : fetched.matcher.matchAs separator.kind t = .ok none :=
        Matcher.matchAs_eof_eq_none hline (by rw [hkind]; decide)
      have hother : fetched.matcher.matchAs (r.state.stay .other).kind t = .ok none :=
        Matcher.matchAs_eof_eq_none hline (show TokenKind.other ≠ .eof by decide)
      have hchoose : fetched.choose t fetched.state.transitions = (fetched, none) := by
        rw [hstate, htransitions, choose_cons_of_miss hmiss, choose_cons_of_miss hother]
        rfl
      have hfine : ¬fetched.failure.isSome = true := by
        rw [hanswered rfl, (failure_of_isOver_eq_false hover).1]
        exact Bool.false_ne_true
      have heof : t.isEof = true := by
        rw [Token.isEof, hline]
        rfl
      rw [hstep]
      simp only
      rw [take, hchoose]
      simp only
      rw [if_neg hfine, reject, if_pos heof, hstate, hexpected]
      refine ⟨(matcher_addError _ _).trans hmatcher,
        (builder_addError _ _).trans hbuilder, .inr ⟨t.location, ?_⟩⟩
      exact (errors_addError _ _).trans (congrArg (· ++ _) herrors)

/-- A step with which a doc string is opened or closed. -/
structure TakesSeparator (r fetched chosen : Run) (transition : Transition) (t read : Token) :
    Prop where
  running : r.isOver = false
  next : r.next = (fetched, some t)
  choose : fetched.choose t r.state.transitions = (chosen, some (transition, read))
  mem : transition ∈ r.state.transitions
  kind : transition.kind = .docStringSeparator
  read : r.matcher.matchAs .docStringSeparator t = .ok (some (chosen.matcher, read))
  matcher : r.step.matcher = chosen.matcher
  errors : chosen.errors = r.errors

/-- Only a separator that is accepted opens or closes a doc string. -/
theorem exists_takesSeparator (h : r.step.matcher.docString ≠ r.matcher.docString) :
    ∃ fetched chosen transition t read, r.TakesSeparator fetched chosen transition t read := by
  cases r.stepping with
  | stays _ hstep =>
      rw [hstep] at h
      exact absurd rfl h
  | unreadable fetched _ hnext hstep =>
      rw [hstep] at h
      exact absurd (congrArg Matcher.docString (fetched_of_eq hnext).matcher) h
  | takes fetched t hover hnext hstep =>
      obtain ⟨hfetched, hstate, -, herrors, -, -⟩ := fetched_of_eq hnext
      have hbehind : r.step.matcher = (fetched.take t).matcher := by rw [hstep]
      have hread := choose_matcher (lookahead_only_tags r.state) fetched t
      rcases hchoose : fetched.choose t r.state.transitions with
        ⟨chosen, _ | ⟨transition, read⟩⟩ <;> rw [hchoose] at hread
      · have hmatcher : (fetched.take t).matcher = fetched.matcher :=
          take_matcher (by rw [hstate, hchoose])
        rw [hbehind, hmatcher, hfetched] at h
        exact absurd rfl h
      · have hchooses := chooses_of_eq hchoose
        have hmatch := hread.2 transition read rfl
        have hmatcher : r.step.matcher = chosen.matcher := by
          rw [hbehind, take, hstate, hchoose]
          exact (chosen.accept_frame transition read).1
        rw [hfetched] at hmatch
        have hkind : transition.kind = .docStringSeparator := by
          by_contra hkind
          rw [hmatcher, Matcher.docString_eq_of_matchAs hkind hmatch] at h
          exact h rfl
        rw [hkind] at hmatch
        obtain ⟨hmem, -, -⟩ := hchooses.accepted transition read rfl
        exact ⟨fetched, chosen, transition, t, read, hover, hnext, hchoose, hmem, hkind, hmatch,
          hmatcher, hchooses.errors.trans herrors⟩

/-- A doc string is opened by a line that starts with its separator. -/
theorem step_opening (h : r.Agrees) (hdoc : r.matcher.docString = none)
    (hopened : r.step.matcher.docString = some opened) :
    ∃ l, r.upcoming = some l ∧ l.startsWith opened.separator.text = true ∧
      opened.indent = l.indent ∧ r.step.errors = r.errors ∧
      r.step.builder.content? = some [] := by
  have houtside : ¬r.state.inDocString = true := by
    rw [← h, hdoc]
    exact Bool.false_ne_true
  have hchanges : r.step.matcher.docString ≠ r.matcher.docString := by
    rw [hdoc, hopened]
    exact Option.some_ne_none opened
  obtain ⟨fetched, chosen, transition, t, read, htakes⟩ := exists_takesSeparator hchanges
  obtain ⟨hcloses, hopens⟩ := State.opens_of_separator htakes.mem htakes.kind
  rw [if_neg houtside] at hopens
  obtain ⟨l, content, hline, hcontent, hafter⟩ :=
    Matcher.exists_line_of_matchAs_separator htakes.read
  obtain ⟨separator, hstarts, hopening⟩ := Matcher.exists_docStringAfter hdoc hcontent
  rw [htakes.matcher, hafter, hopening] at hopened
  obtain rfl := Option.some.inj hopened
  obtain ⟨reading, hreading, hkind⟩ := Matcher.exists_reading_of_matchAs htakes.read
  have hstep := step_of_choose htakes.running htakes.next htakes.choose hcloses
  rw [hopens] at hstep
  refine ⟨l, ?_, hstarts, rfl, ?_, ?_⟩
  · rw [upcoming, htakes.running, htakes.next]
    exact hline
  · rw [hstep]
    exact htakes.errors
  · rw [hstep]
    refine (Builder.content?_build hreading (.inr hkind)).trans ?_
    rw [hkind]
    rfl

/-! ### Runs -/

/-- The lines that the steps from one number up to another take. -/
def linesBetween (start : Run) (k n : Nat) : List Line :=
  (List.range' k (n - k)).filterMap fun j => (steps j start).upcoming

theorem linesBetween_self (start : Run) (n : Nat) : start.linesBetween n n = [] := by
  rw [linesBetween, Nat.sub_self]
  rfl

theorem linesBetween_succ (start : Run) {k n : Nat} (h : k ≤ n) :
    start.linesBetween k (n + 1) =
      start.linesBetween k n ++ (steps n start).upcoming.toList := by
  have hn : k + (n - k) = n := Nat.add_sub_cancel' h
  rw [linesBetween, linesBetween, Nat.succ_sub h, List.range'_concat, List.filterMap_append,
    Nat.one_mul, hn]
  cases hline : (steps n start).upcoming with
  | none => simp [hline]
  | some l => simp [hline]

/-- The doc string that is open behind `n` steps has been opened by line `l` in step `k`, and
all lines that have been taken since are its content. -/
structure OpenedBy (start : Run) (n : Nat) (opened : OpenDocString) (k : Nat) (l : Line) :
    Prop where
  lt : k < n
  outside : (steps k start).matcher.docString = none
  line : (steps k start).upcoming = some l
  separator : l.startsWith opened.separator.text = true
  indent : opened.indent = l.indent
  inside : ∀ j, k < j → j ≤ n → (steps j start).matcher.docString = some opened
  content : (steps n start).builder.content? =
    some ((start.linesBetween (k + 1) n).map opened.content)
  later : ∀ l' ∈ start.linesBetween (k + 1) n, l'.startsWith opened.separator.text = false

/-- A doc string stays open only over lines that do not start with its separator. -/
theorem startsWith_eq_false_of_step (h : r.Agrees) (hdoc : r.matcher.docString = some opened)
    (hopen : r.step.matcher.docString = some opened) (hl : r.upcoming = some l) :
    l.startsWith opened.separator.text = false := by
  rw [← Bool.not_eq_true]
  intro hstarts
  obtain ⟨hclosed, -⟩ := step_closing h hdoc hl hstarts
  rw [hclosed] at hopen
  cases hopen

theorem OpenedBy.succ {start : Run} {n k : Nat} (h : start.OpenedBy n opened k l)
    (hagrees : (steps n start).Agrees)
    (hdoc : (steps (n + 1) start).matcher.docString = some opened) :
    start.OpenedBy (n + 1) opened k l := by
  have hopen := h.inside n h.lt (Nat.le_refl n)
  have hlines := start.linesBetween_succ h.lt
  rw [steps_succ] at hdoc
  refine ⟨Nat.lt_succ_of_lt h.lt, h.outside, h.line, h.separator, h.indent, ?_, ?_, ?_⟩
  · intro j hk hj
    by_cases hlast : j = n + 1
    · rw [hlast, steps_succ]
      exact hdoc
    · exact h.inside j hk (by omega)
  · rw [hlines, steps_succ]
    cases hline : (steps n start).upcoming with
    | none =>
        obtain ⟨-, hbuilder, -⟩ := step_end hagrees hopen hline
        rw [hbuilder, h.content]
        simp
    | some l' =>
        have hnot := startsWith_eq_false_of_step hagrees hopen hdoc hline
        obtain ⟨-, -, -, -, hcontent⟩ := step_content hagrees hopen hline hnot
        rw [hcontent, h.content]
        simp
  · intro l' hl'
    rw [hlines, List.mem_append, Option.mem_toList] at hl'
    rcases hl' with hl' | hl'
    · exact h.later l' hl'
    · exact startsWith_eq_false_of_step hagrees hopen hdoc hl'

/-- An open doc string has been opened, and its content has been taken since. -/
theorem exists_openedBy {start : Run} (hagrees : start.Agrees)
    (hstart : start.matcher.docString = none) (n : Nat)
    (hdoc : (steps n start).matcher.docString = some opened) :
    ∃ k l, start.OpenedBy n opened k l := by
  induction n with
  | zero =>
      rw [steps, hstart] at hdoc
      cases hdoc
  | succ n ih =>
      have hstep := hagrees.steps n
      cases hbefore : (steps n start).matcher.docString with
      | none =>
          have hopened := hdoc
          rw [steps_succ] at hopened
          obtain ⟨l, hline, hstarts, hindent, -, hcontent⟩ := step_opening hstep hbefore hopened
          refine ⟨n, l, Nat.lt_succ_self n, hbefore, hline, hstarts, hindent, ?_, ?_, ?_⟩
          · intro j hk hj
            obtain rfl : j = n + 1 := by omega
            exact hdoc
          · rw [linesBetween_self, steps_succ]
            exact hcontent
          · intro l' hl'
            rw [linesBetween_self] at hl'
            cases hl'
      | some before =>
          -- a doc string that is open stays open with the same separator, or is closed
          have hsame : before = opened := by
            by_contra hother
            have hchanges : (steps n start).step.matcher.docString ≠
                (steps n start).matcher.docString := by
              rw [← steps_succ, hdoc, hbefore]
              exact fun h => hother (Option.some.inj h).symm
            obtain ⟨fetched, chosen, transition, t, read, htakes⟩ :=
              exists_takesSeparator hchanges
            obtain ⟨l, content, -, -, hafter⟩ :=
              Matcher.exists_line_of_matchAs_separator htakes.read
            rw [steps_succ, htakes.matcher, hafter] at hdoc
            simp only [Matcher.docStringAfter, hbefore] at hdoc
            cases hdoc
          subst hsame
          obtain ⟨k, l, hopened⟩ := ih hbefore
          exact ⟨k, l, hopened.succ hstep hdoc⟩

/-- Nothing is wrong with a doc string that is closed. -/
theorem closeRule_errors_of_content? {lines : List String}
    (h : r.builder.content? = some lines) : r.closeRule.errors = r.errors := by
  have hclosed := Builder.close_of_content? h
  rw [closeRule]
  split
  · rfl
  · rcases hclose : r.builder.close with ⟨builder, e⟩
    rw [hclose] at hclosed
    obtain rfl : e = none := hclosed
    rfl

/-- Free text outside doc strings is taken in as it is written. -/
theorem text?_of_acceptance? {a : Acceptance} {t : Token} (hdoc : r.matcher.docString = none)
    (h : r.acceptance? t = some a) (hkind : a.token.kind? = some .other) :
    a.token.text? = t.line.map Line.raw := by
  have hread := choose_matcher (lookahead_only_tags r.state) r t
  rw [acceptance?] at h
  generalize r.choose t r.state.transitions = result at h hread
  rcases result with ⟨chosen, _ | ⟨transition, read⟩⟩
  · cases h
  · obtain rfl := Option.some.inj h
    have hmatch := hread.2 transition read rfl
    have hother : transition.kind = .other :=
      Option.some.inj ((Matcher.kind?_of_matchAs hmatch).symm.trans hkind)
    rw [hother] at hmatch
    cases hline : t.line with
    | none =>
        rw [Matcher.matchAs_eof_eq_none hline (by decide)] at hmatch
        cases hmatch
    | some l =>
        rw [r.matcher.matchAs_other hline] at hmatch
        obtain ⟨-, rfl⟩ := Prod.mk.inj (Option.some.inj (Except.ok.inj hmatch))
        exact congrArg some (Matcher.freeText_of_docString_eq_none hdoc l)

end Run

namespace Parser

/-- A run starts outside doc strings. -/
theorem outside_run {p : Parser} {source : Source} {start : Run} (h : p.run source = .ok start) :
    start.matcher.docString = none ∧ start.Agrees := by
  rw [run] at h
  split at h
  · cases h
  · next matcher _ =>
      rw [Run.start] at h
      split at h
      · cases h
      · next reset hreset =>
          obtain rfl := Except.ok.inj h
          rw [Matcher.reset, Matcher.start] at hreset
          split at hreset
          · obtain rfl := Except.ok.inj hreset
            exact ⟨rfl, rfl⟩
          · cases hreset

/-- At every point of a run the matcher holds a separator exactly when the state is inside a
doc string.  Outside doc strings free text is taken in as it is written.  A doc string that is
open has the separator and the indentation of the line that has opened it; every line is
content up to the first one that starts with that separator, which closes it; and the end of
the source is the only error. -/
theorem docString_iff_inDocString {p : Parser} {source : Source} {start : Run}
    (h : p.run source = .ok start) (n : Nat) :
    let r := Run.steps n start
    (∀ point ∈ r.points,
      (point.matcher.docString.isSome = true ↔ point.state.number ∈ [28, 30, 32]) ∧
        point.matcher = r.matcher) ∧
      (r.matcher.docString = none →
        (∀ l, r.matcher.freeText l = l.raw) ∧
          ∀ fetched t a, r.next = (fetched, some t) → fetched.acceptance? t = some a →
            a.token.kind? = some .other → a.token.text? = t.line.map Line.raw) ∧
      ∀ opened, r.matcher.docString = some opened →
        (∃ k l, start.OpenedBy n opened k l) ∧
          (∀ l, r.upcoming = some l →
            if l.startsWith opened.separator.text then
              r.step.matcher.docString = none ∧ r.step.errors = r.errors ∧
                r.step.failure = none ∧ r.step.builder.content? = r.builder.content?
            else
              r.step.state = r.state ∧ r.step.matcher = r.matcher ∧ r.step.errors = r.errors ∧
                r.step.failure = none ∧
                r.step.builder.content? = r.builder.content?.map (· ++ [opened.content l])) ∧
          (r.upcoming = none →
            r.step.errors = r.errors ∨
              ∃ location, r.step.errors =
                r.errors ++ [⟨.unexpectedEof [.docStringSeparator, .other], location⟩]) ∧
          r.closeRule.errors = r.errors := by
  obtain ⟨hstart, hagrees⟩ := outside_run h
  intro r
  have hr : r.Agrees := hagrees.steps n
  refine ⟨?_, ?_, ?_⟩
  · intro point hpoint
    obtain ⟨hstate, hmatcher⟩ := r.points_frame point hpoint
    constructor
    · rw [hr.of_frame hmatcher hstate, State.inDocString_iff]
    · exact hmatcher
  · intro hdoc
    constructor
    · exact Matcher.freeText_of_docString_eq_none hdoc
    · intro fetched t a hnext haccepted hkind
      have hfetched := (Run.fetched_of_eq hnext).matcher
      exact Run.text?_of_acceptance? (hfetched ▸ hdoc) haccepted hkind
  · intro opened hdoc
    obtain ⟨k, l, hopened⟩ := Run.exists_openedBy hagrees hstart n hdoc
    refine ⟨⟨k, l, hopened⟩, ?_, ?_, Run.closeRule_errors_of_content? hopened.content⟩
    · intro l hline
      split
      · next hstarts => exact Run.step_closing hr hdoc hline hstarts
      · next hnot =>
          rw [Bool.not_eq_true] at hnot
          exact Run.step_content hr hdoc hline hnot
    · intro hnone
      exact (Run.step_end hr hdoc hnone).2.2

/-- A doc string in which a comment, tags and the other separator stand. -/
theorem docString_iff_inDocString_quotes :
    let source := Source.ofLines <| List.map String.toList
      ["Feature: f", "Scenario: s", "Given g", "  \"\"\"", "# c", "   @t", "  ```"]
    ∃ start, Parser.run {} source = .ok start ∧
      (Run.steps 7 start).matcher.docString = some ⟨.quotes, 2⟩ ∧
      (∃ k l, start.OpenedBy 7 ⟨.quotes, 2⟩ k l) ∧
      (Run.steps 7 start).builder.content? = some ["# c", " @t", "```"] := by
  intro source
  have hsteps : (Parser.run {} source).toOption.any (fun start =>
      let r := Run.steps 7 start
      r.matcher.docString = some ⟨.quotes, 2⟩ &&
        r.builder.content? = some ["# c", " @t", "```"]) = true := by
    decide +kernel
  obtain ⟨start, hrun, hsteps⟩ := exists_ok_of_any hsteps
  simp only [Bool.and_eq_true, decide_eq_true_eq] at hsteps
  obtain ⟨hdoc, hcontent⟩ := hsteps
  obtain ⟨-, -, hopen⟩ := docString_iff_inDocString hrun 7
  exact ⟨start, hrun, hdoc, (hopen ⟨.quotes, 2⟩ hdoc).1, hcontent⟩

end Parser
end Gherkin
