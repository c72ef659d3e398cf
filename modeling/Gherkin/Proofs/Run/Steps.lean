import Gherkin.Proofs.Reader.Drafts
import Gherkin.Proofs.Reader.Transparency

/-!
# What a step of a run can do

A step fetches a token, chooses a transition for it and takes it.  Each of these
can end in a few ways only, and leaves most of a run as it is.  What holds of
every run is proved along these ways.  The last part counts the tokens that a
run has still to take: each step leaves one less.
-/

namespace Gherkin

theorem Token.fresh_eq_eof {t : Token} (h : t.isEof = true) : t.fresh = .eof t.number := by
  rw [isEof, Option.isNone_iff_eq_none] at h
  rw [fresh, eof, h]

namespace Run

/-! ### Collecting errors, closing and opening -/

theorem builder_addError (r : Run) (e : SyntaxError) : (r.addError e).builder = r.builder := by
  rw [addError]
  split <;> rfl

theorem state_addError (r : Run) (e : SyntaxError) : (r.addError e).state = r.state := by
  rw [addError]
  split <;> rfl

theorem matcher_addError (r : Run) (e : SyntaxError) : (r.addError e).matcher = r.matcher := by
  rw [addError]
  split <;> rfl

theorem errors_addError (r : Run) (e : SyntaxError) : (r.addError e).errors = r.errors ++ [e] := by
  rw [addError]
  split <;> rfl

theorem errors_addError_ne_nil (r : Run) (e : SyntaxError) : (r.addError e).errors ≠ [] := by
  rw [errors_addError]
  exact List.append_ne_nil_of_right_ne_nil _ (List.cons_ne_nil e [])

theorem failure_of_closeRule {r : Run} (h : r.closeRule.failure = none) : r.failure = none := by
  cases hfailure : r.failure with
  | none => rfl
  | some failure =>
      rw [closeRule, if_pos (by rw [hfailure]; rfl), hfailure] at h
      cases h

theorem failure_of_closeRules {n : Nat} {r : Run} (h : (closeRules n r).failure = none) :
    r.failure = none := by
  induction n generalizing r with
  | zero => exact h
  | succ n ih => exact failure_of_closeRule (ih h)

/-- Opening rules changes nothing but the builder. -/
theorem foldl_openRule_frame (rules : List Rule) (r : Run) :
    (rules.foldl openRule r).matcher = r.matcher ∧ (rules.foldl openRule r).limit = r.limit ∧
      (rules.foldl openRule r).errors = r.errors ∧
      (rules.foldl openRule r).failure = r.failure := by
  have hopened := (openRules_becomes rules r).reader
  exact ⟨congrArg Reader.matcher hopened, congrArg Reader.limit hopened,
    congrArg Reader.errors hopened, congrArg Reader.failure hopened⟩

/-- A token that is accepted leads to the next state, unless the run fails while it closes
rules for it. -/
theorem accept_frame (r : Run) (transition : Transition) (t : Token) :
    (r.accept transition t).matcher = r.matcher ∧
      ((r.accept transition t).state = transition.next ∨
        (r.accept transition t).state = r.state ∧
          (closeRules transition.closes r).failure.isSome) := by
  have hclosed := (closeRules_becomes transition.closes r).reader
  obtain ⟨hstate, hmatcher⟩ := r.reader.closeRules_frame transition.closes
  rw [← hclosed] at hstate hmatcher
  rw [accept]
  split
  · next hfailure => exact ⟨hmatcher, .inr ⟨hstate, hfailure⟩⟩
  · obtain ⟨hopened, -⟩ :=
      foldl_openRule_frame transition.opens (closeRules transition.closes r)
    exact ⟨hopened.trans hmatcher, .inl rfl⟩

/-- A separator and free text are accepted without closing a rule. -/
theorem accept_of_closes_eq_zero {r : Run} {transition : Transition} (h : r.failure = none)
    (hcloses : transition.closes = 0) (t : Token) :
    r.accept transition t =
      { transition.opens.foldl openRule r with
        builder := (transition.opens.foldl openRule r).builder.build t
        state := transition.next } := by
  have hopen : ¬r.failure.isSome = true := by
    rw [h]
    exact Bool.false_ne_true
  rw [accept, hcloses]
  exact if_neg hopen

/-! ### Looking ahead -/

/-- A look at the lines of a scanner decides, unless one of them cannot be read. -/
theorem exists_error_of_lookOn (m : Matcher) (line : Nat) (source : Source) :
    (m.lookOn line source).verdict = none → ∃ e, (m.lookOn line source).error? = some e := by
  refine Matcher.lookOnInduction ?nil ?fault ?decided ?undecided line source
  case nil => exact fun _ h => by cases h
  case fault => exact fun _ _ _ _ => ⟨_, rfl⟩
  case decided => exact fun _ _ _ _ _ _ h => by cases h
  case undecided => exact fun _ _ _ _ _ ih h => ih h

/-- What is known of a look ahead.  It moves tokens into the queue and changes nothing
else, but when a line cannot be read, the run fails and there is no answer. -/
structure LooksAhead (r : Run) (result : Run × Option Bool) : Prop where
  state : result.1.state = r.state
  matcher : result.1.matcher = r.matcher
  builder : result.1.builder = r.builder
  errors : result.1.errors = r.errors
  ended : result.1.ended = r.ended
  answered : result.2.isSome = true → result.1.failure = r.failure
  unanswered : result.2 = none → ∃ e, result.1.failure = some (.scan e)

theorem lookAhead_looksAhead (r : Run) : r.LooksAhead r.lookAhead := by
  simp only [lookAhead]
  split
  · exact ⟨rfl, rfl, rfl, rfl, rfl, fun _ => rfl, fun h => by cases h⟩
  · split
    · exact ⟨rfl, rfl, rfl, rfl, rfl, fun h => absurd h Bool.false_ne_true,
        fun _ => ⟨_, rfl⟩⟩
    · next herror =>
        refine ⟨rfl, rfl, rfl, rfl, rfl, fun _ => rfl, fun h => ?_⟩
        obtain ⟨e, he⟩ := exists_error_of_lookOn _ _ _ h
        rw [herror] at he
        cases he

theorem looksAhead_of_eq {r : Run} {result : Run × Option Bool} (h : r.lookAhead = result) :
    r.LooksAhead result :=
  h ▸ r.lookAhead_looksAhead

/-- A look ahead behind a tag line leaves the matcher as it is in front of the tag line. -/
theorem lookAhead_of_tags {r looked : Run} {t read : Token} {next : Matcher}
    {transition : Transition} {transitions : List Transition} {verdict : Option Bool}
    {events : List Event}
    (htags : ∀ u ∈ transition :: transitions, u.lookahead → u.kind = .tagLine)
    (hmatch : r.matcher.matchAs transition.kind t = .ok (some (next, read)))
    (hlookahead : transition.lookahead = true)
    (hlook : ({ r with matcher := next }.note events).lookAhead = (looked, verdict)) :
    looked.matcher = r.matcher := by
  have hkind := htags transition List.mem_cons_self hlookahead
  rw [hkind] at hmatch
  exact (looksAhead_of_eq hlook).matcher.trans
    (Matcher.eq_of_matchAs (by decide) (by decide) hmatch)

/-! ### Choosing a transition -/

/-- What is known of a choice among transitions, whether or not the run fails with
it. -/
structure Chooses (r : Run) (t : Token) (transitions : List Transition)
    (chosen : Run × Option (Transition × Token)) : Prop where
  state : chosen.1.state = r.state
  builder : chosen.1.builder = r.builder
  errors : chosen.1.errors = r.errors
  ended : chosen.1.ended = r.ended
  accepted : ∀ transition read, chosen.2 = some (transition, read) →
    transition ∈ transitions ∧ chosen.1.failure = r.failure ∧
      (t.isEof = true → transition.kind = .eof)

/-- A token is found again in a look at what follows it. -/
theorem Chooses.behind {r looked : Run} {t read : Token} {transitions : List Transition}
    {transition : Transition} {chosen : Run × Option (Transition × Token)}
    (hlooked : looked.state = r.state ∧ looked.builder = r.builder ∧ looked.errors = r.errors ∧
      looked.ended = r.ended ∧ looked.failure = r.failure)
    (hread : read.isEof = t.isEof) (h : looked.Chooses read transitions chosen) :
    r.Chooses t (transition :: transitions) chosen := by
  obtain ⟨hstate, hbuilder, herrors, hended, hfailure⟩ := hlooked
  refine ⟨h.state.trans hstate, h.builder.trans hbuilder, h.errors.trans herrors,
    h.ended.trans hended, fun u read' hu => ?_⟩
  obtain ⟨hmem, hfine, hkind⟩ := h.accepted u read' hu
  exact ⟨List.mem_cons_of_mem _ hmem, hfine.trans hfailure, fun ht => hkind (hread.trans ht)⟩

theorem choose_chooses (transitions : List Transition) (r : Run) (t : Token) :
    r.Chooses t transitions (r.choose t transitions) := by
  fun_induction r.choose t transitions with
  | case1 r t | case3 r t =>
      refine ⟨rfl, rfl, rfl, rfl, ?_⟩
      rintro _ _ ⟨⟩
  | case2 r t transition transitions hmatch ih => exact ih.behind ⟨rfl, rfl, rfl, rfl, rfl⟩ rfl
  | case4 r t transition transitions next read hmatch matched _ looked hlook =>
      have hlooks := looksAhead_of_eq hlook
      refine ⟨hlooks.state, hlooks.builder, hlooks.errors, hlooks.ended, ?_⟩
      rintro _ _ ⟨⟩
      exact ⟨List.mem_cons_self, hlooks.answered rfl, Matcher.kind_eq_eof_of_matchAs hmatch⟩
  | case5 r t transition transitions next read hmatch matched _ looked hlook ih =>
      have hlooks := looksAhead_of_eq hlook
      exact ih.behind
        ⟨hlooks.state, hlooks.builder, hlooks.errors, hlooks.ended, hlooks.answered rfl⟩
        (Matcher.isEof_of_matchAs hmatch)
  | case6 r t transition transitions next read hmatch matched _ looked hlook =>
      have hlooks := looksAhead_of_eq hlook
      refine ⟨hlooks.state, hlooks.builder, hlooks.errors, hlooks.ended, ?_⟩
      rintro _ _ ⟨⟩
  | case7 r t transition transitions next read hmatch matched =>
      refine ⟨rfl, rfl, rfl, rfl, ?_⟩
      rintro _ _ ⟨⟩
      exact ⟨List.mem_cons_self, rfl, Matcher.kind_eq_eof_of_matchAs hmatch⟩

theorem chooses_of_eq {r : Run} {t : Token} {transitions : List Transition}
    {chosen : Run × Option (Transition × Token)} (h : r.choose t transitions = chosen) :
    r.Chooses t transitions chosen :=
  h ▸ choose_chooses transitions r t

theorem lookahead_only_tags (s : State) :
    ∀ u ∈ s.transitions, u.lookahead → u.kind = .tagLine := by
  intro u hu
  exact kind_eq_tagLine_of_lookahead hu

/-- What is chosen is what the matcher in front of the token reads, also behind a look ahead. -/
theorem choose_matcher {transitions : List Transition}
    (htags : ∀ u ∈ transitions, u.lookahead → u.kind = .tagLine) (r : Run) (t : Token) :
    ((r.choose t transitions).2 = none → (r.choose t transitions).1.matcher = r.matcher) ∧
      ∀ transition read, (r.choose t transitions).2 = some (transition, read) →
        r.matcher.matchAs transition.kind t =
          .ok (some ((r.choose t transitions).1.matcher, read)) := by
  fun_induction r.choose t transitions with
  | case1 r t | case3 r t => exact ⟨fun _ => rfl, fun _ _ h => by cases h⟩
  | case2 r t transition transitions hmatch ih =>
      exact ih fun u hu => htags u (List.mem_cons_of_mem _ hu)
  | case4 r t transition transitions next read hmatch matched _ looked hlook =>
      have hlooked := (looksAhead_of_eq hlook).matcher
      refine ⟨fun h => absurd h (Option.some_ne_none _), ?_⟩
      rintro _ _ ⟨⟩
      rw [hmatch, hlooked]
      rfl
  | case5 r t transition transitions next read hmatch matched hlookahead looked hlook ih =>
      -- the token that has been looked over is tried again, with another reading
      have hlooked := lookAhead_of_tags htags hmatch hlookahead hlook
      obtain ⟨hnone, hsome⟩ := ih fun u hu => htags u (List.mem_cons_of_mem _ hu)
      rw [hlooked] at hnone hsome
      refine ⟨hnone, fun u read' hu => ?_⟩
      rw [← hsome u read' hu, Matcher.matchAs_of_matchAs hmatch]
  | case6 r t transition transitions next read hmatch matched hlookahead looked hlook =>
      have hlooked := lookAhead_of_tags htags hmatch hlookahead hlook
      exact ⟨fun _ => hlooked, fun _ _ h => by cases h⟩
  | case7 r t transition transitions next read hmatch matched =>
      refine ⟨fun h => absurd h (Option.some_ne_none _), ?_⟩
      rintro _ _ ⟨⟩
      exact hmatch

theorem choose_cons_of_miss {r : Run} {transition : Transition} {t : Token}
    (h : r.matcher.matchAs transition.kind t = .ok none) (transitions : List Transition) :
    r.choose t (transition :: transitions) = r.choose t transitions := by
  rw [choose, h]

theorem choose_cons_of_hit {r : Run} {transition : Transition} {t read : Token} {next : Matcher}
    (h : r.matcher.matchAs transition.kind t = .ok (some (next, read)))
    (hlook : transition.lookahead = false) (transitions : List Transition) :
    r.choose t (transition :: transitions) =
      ({ r with matcher := next }.note (r.matcher.matchEvents transition.kind t),
        some (transition, read)) := by
  rw [choose, h]
  simp only [hlook]
  rfl

/-! ### Taking a token -/

/-- Skipping a token is collecting an error. -/
theorem exists_reject_eq (r : Run) (t : Token) : ∃ e, r.reject t = r.addError e := by
  rw [reject]
  split
  · exact ⟨_, rfl⟩
  · exact ⟨_, rfl⟩

/-- What taking a token comes to. -/
inductive Takes (r : Run) (t : Token) : Prop
  /-- The run fails before a transition is chosen. -/
  | fails (chosen : Run) (choose : r.choose t r.state.transitions = (chosen, none))
      (failed : chosen.failure ≠ none) (take : r.take t = chosen)
  /-- No transition accepts the token, and it is skipped with an error. -/
  | skips (chosen : Run) (e : SyntaxError)
      (choose : r.choose t r.state.transitions = (chosen, none))
      (fine : chosen.failure = none) (take : r.take t = chosen.addError e)
  /-- A transition accepts the token. -/
  | accepts (chosen : Run) (transition : Transition) (read : Token)
      (choose : r.choose t r.state.transitions = (chosen, some (transition, read)))
      (take : r.take t = chosen.accept transition read)

theorem takes (r : Run) (t : Token) : r.Takes t := by
  rcases hchoose : r.choose t r.state.transitions with ⟨chosen, _ | ⟨transition, read⟩⟩
  · have htake : r.take t = if chosen.failure.isSome then chosen else chosen.reject t := by
      rw [take, hchoose]
    cases hfailure : chosen.failure with
    | some failure =>
        refine .fails chosen hchoose (by rw [hfailure]; exact Option.some_ne_none failure) ?_
        rw [htake, hfailure]
        rfl
    | none =>
        obtain ⟨e, he⟩ := exists_reject_eq chosen t
        refine .skips chosen e hchoose hfailure ?_
        rw [htake, hfailure, ← he]
        rfl
  · refine .accepts chosen transition read hchoose ?_
    rw [take, hchoose]

/-- A token that is not accepted changes nothing of what the matcher holds. -/
theorem take_matcher {r : Run} {t : Token} (h : (r.choose t r.state.transitions).2 = none) :
    (r.take t).matcher = r.matcher := by
  have hchosen := (choose_matcher (lookahead_only_tags r.state) r t).1 h
  cases r.takes t with
  | fails chosen hchoose _ htake =>
      rw [hchoose] at hchosen
      rw [htake, ← hchosen]
  | skips chosen e hchoose _ htake =>
      rw [hchoose] at hchosen
      rw [htake, matcher_addError, ← hchosen]
  | accepts chosen transition read hchoose _ =>
      rw [hchoose] at h
      cases h

/-! ### Fetching a token, and steps -/

/-- What is known of the fetching of a token.  It changes nothing but the tokens that
wait, but when a line cannot be read, the run fails and there is no token. -/
structure Fetched (r fetched : Run) (t? : Option Token) : Prop where
  matcher : fetched.matcher = r.matcher
  state : fetched.state = r.state
  builder : fetched.builder = r.builder
  errors : fetched.errors = r.errors
  answered : t?.isSome = true → fetched.failure = r.failure
  unanswered : t? = none → ∃ e, fetched.failure = some (.scan e)

theorem fetched_of_eq {r fetched : Run} {t? : Option Token} (h : r.next = (fetched, t?)) :
    r.Fetched fetched t? := by
  rw [next] at h
  split at h
  · obtain ⟨rfl, rfl⟩ := Prod.mk.inj h
    exact ⟨rfl, rfl, rfl, rfl, fun _ => rfl, fun hnone => by cases hnone⟩
  · split at h
    · obtain ⟨rfl, rfl⟩ := Prod.mk.inj h
      exact ⟨rfl, rfl, rfl, rfl, fun _ => rfl, fun hnone => by cases hnone⟩
    · obtain ⟨rfl, rfl⟩ := Prod.mk.inj h
      exact ⟨rfl, rfl, rfl, rfl, fun hsome => absurd hsome Bool.false_ne_true,
        fun _ => ⟨_, rfl⟩⟩

/-- A run that fetches no token fails. -/
theorem Fetched.failed {r fetched : Run} (h : r.Fetched fetched none) :
    fetched.failure ≠ none := by
  obtain ⟨e, he⟩ := h.unanswered rfl
  rw [he]
  exact Option.some_ne_none _

theorem step_of_isOver {r : Run} (h : r.isOver = true) : r.step = r :=
  if_pos h

theorem step_of_not_isOver {r : Run} (h : r.isOver = false) :
    r.step = match r.next with
      | (fetched, some t) => { fetched.take t with ended := t.isEof }
      | (fetched, none) => fetched :=
  if_neg (by rw [← isOver, h]; exact Bool.false_ne_true)

/-- What a step comes to. -/
inductive Stepping (r : Run) : Prop
  /-- A run that is over stays as it is. -/
  | stays (isOver : r.isOver = true) (step : r.step = r)
  /-- The next line cannot be read. -/
  | unreadable (fetched : Run) (isOver : r.isOver = false) (next : r.next = (fetched, none))
      (step : r.step = fetched)
  /-- The next token is taken. -/
  | takes (fetched : Run) (t : Token) (isOver : r.isOver = false)
      (next : r.next = (fetched, some t))
      (step : r.step = { fetched.take t with ended := t.isEof })

theorem stepping (r : Run) : r.Stepping := by
  cases hover : r.isOver with
  | true => exact .stays hover (step_of_isOver hover)
  | false =>
      rcases hnext : r.next with ⟨fetched, _ | t⟩
      · refine .unreadable fetched hover hnext ?_
        rw [step_of_not_isOver hover, hnext]
      · refine .takes fetched t hover hnext ?_
        rw [step_of_not_isOver hover, hnext]

/-- A step that accepts a token for which no rule is closed. -/
theorem step_of_choose {r fetched chosen : Run} {transition : Transition} {t read : Token}
    (hover : r.isOver = false) (hnext : r.next = (fetched, some t))
    (hchoose : fetched.choose t r.state.transitions = (chosen, some (transition, read)))
    (hcloses : transition.closes = 0) :
    r.step =
      { transition.opens.foldl openRule chosen with
        builder := (transition.opens.foldl openRule chosen).builder.build read
        state := transition.next
        ended := t.isEof } := by
  obtain ⟨-, hstate, -, -, hanswered, -⟩ := fetched_of_eq hnext
  have hfailure := hanswered rfl
  have hchooses := choose_chooses r.state.transitions fetched t
  rw [hchoose] at hchooses
  have hfine : chosen.failure = none := by
    rw [(hchooses.accepted transition read rfl).2.1, hfailure]
    exact (failure_of_isOver_eq_false hover).1
  rw [step_of_not_isOver hover, hnext]
  simp only
  rw [take, hstate, hchoose]
  simp only
  rw [accept_of_closes_eq_zero hfine hcloses]

theorem steps_succ (n : Nat) (r : Run) : steps (n + 1) r = (steps n r).step := by
  induction n generalizing r with
  | zero => rfl
  | succ n ih => exact ih r.step

/-- What a step keeps, any number of steps keeps. -/
theorem steps_of_step {P : Run → Prop} (hstep : ∀ {r : Run}, P r → P r.step) {r : Run}
    (h : P r) (n : Nat) : P (steps n r) := by
  induction n generalizing r with
  | zero => exact h
  | succ n ih => exact ih (hstep h)

/-! ### The tokens that are left -/

/-- The number of tokens that a run has still to take, with the end of the source. -/
def untaken (r : Run) : Nat :=
  if r.queue.any Token.isEof then r.queue.length
  else r.queue.length + r.scanner.source.length + 1

/-- Looking through the queue keeps its tokens, and decides at the end of the
source. -/
theorem lookThrough_tokens (m : Matcher) (queue : List Token) :
    (m.lookThrough queue).tokens.map Token.isEof = queue.map Token.isEof ∧
      ((m.lookThrough queue).verdict = none → queue.any Token.isEof = false) := by
  induction queue with
  | nil => exact ⟨rfl, fun _ => rfl⟩
  | cons t ts ih =>
      rw [Matcher.lookThrough]
      have heof := m.glance_isEof t
      cases hverdict : (m.glance t).verdict with
      | some verdict =>
          simp only [List.map_cons, heof]
          refine ⟨trivial, ?_⟩
          rintro ⟨⟩
      | none =>
          have hline : t.isEof = false := by
            rw [← Bool.not_eq_true]
            intro ht
            rw [m.glance_verdict, ← m.isOf_fresh, ← m.isBetweenTags_fresh, Token.fresh_eq_eof ht,
              m.isOf_eof_eq_false (by decide), m.isBetweenTags_eof] at hverdict
            cases hverdict
          simp only [Lookahead.cons, List.map_cons, heof, ih.1, List.any_cons, hline]
          exact ⟨trivial, ih.2⟩

theorem any_isEof_lookThrough (m : Matcher) (queue : List Token) :
    (m.lookThrough queue).tokens.any Token.isEof = queue.any Token.isEof := by
  have hsame := congrArg (List.any · id) (lookThrough_tokens m queue).1
  simpa [List.any_map, Function.comp_def] using hsame

/-- Lines that are looked at are read from the scanner, up to the end of the source
at most. -/
theorem lookOn_tokens (m : Matcher) (line : Nat) (source : Source) :
    (m.lookOn line source).error? = none →
    if (m.lookOn line source).tokens.any Token.isEof then
      (m.lookOn line source).tokens.length = source.length + 1
    else
      (m.lookOn line source).tokens.length + (m.lookOn line source).scanner.source.length =
        source.length := by
  refine Matcher.lookOnInduction ?nil ?fault ?decided ?undecided line source
  case nil => exact fun _ _ => rfl
  case fault => exact fun _ _ _ h => by cases h
  case decided =>
    intro line chars source g verdict heof _
    simp [heof, Nat.add_comm]
  case undecided =>
    intro line chars source g heof ih h
    have hrest := ih h
    simp only [FarLookahead.cons, Lookahead.cons, List.any_cons, heof, Bool.false_or,
      List.length_cons]
    split at hrest
    · rw [if_pos ‹_›, hrest]
    · rw [if_neg ‹_›]
      omega

/-- A look ahead looks through the queue, and if that does not decide, the lines that it reads wait
behind the queue. -/
theorem lookAhead_cases (r : Run) (h : r.lookAhead.1.failure = none) :
    (r.lookAhead.1.queue = (r.matcher.lookThrough r.queue).tokens ∧
        r.lookAhead.1.scanner = r.scanner) ∨
      ∃ read, r.matcher.lookOn r.scanner.line r.scanner.source = read ∧
        (r.matcher.lookThrough r.queue).verdict = none ∧ read.error? = none ∧
        r.lookAhead.1.queue = (r.matcher.lookThrough r.queue).tokens ++ read.tokens ∧
        r.lookAhead.1.scanner = read.scanner := by
  simp only [lookAhead] at h ⊢
  cases hverdict : (r.matcher.lookThrough r.queue).verdict with
  | some verdict => exact .inl ⟨rfl, rfl⟩
  | none =>
      simp only [hverdict] at h ⊢
      cases herror : (r.matcher.lookOn r.scanner.line r.scanner.source).error? with
      | some e =>
          rw [herror] at h
          cases h
      | none => exact .inr ⟨_, rfl, trivial, herror, rfl, rfl⟩

/-- A look ahead leaves as many tokens to take, unless a line cannot be read. -/
theorem lookAhead_untaken (r : Run) (h : r.lookAhead.1.failure = none) :
    r.lookAhead.1.untaken = r.untaken := by
  obtain ⟨hsame, hnone⟩ := lookThrough_tokens r.matcher r.queue
  have hlength := congrArg List.length hsame
  have hany := any_isEof_lookThrough r.matcher r.queue
  rw [List.length_map, List.length_map] at hlength
  rcases r.lookAhead_cases h with
    ⟨hqueue, hscanner⟩ | ⟨read, hread, hverdict, herror, hqueue, hscanner⟩
  · rw [untaken, untaken, hqueue, hscanner, hany, hlength]
  · have hline := hnone hverdict
    have htokens := lookOn_tokens r.matcher r.scanner.line r.scanner.source
    rw [hread] at htokens
    have htokens := htokens herror
    rw [untaken, untaken, hqueue, hscanner, List.any_append, List.length_append, hany, hline,
      hlength, Bool.false_or, if_neg Bool.false_ne_true]
    split at htokens
    · rw [if_pos ‹_›]
      omega
    · rw [if_neg ‹_›]
      omega

/-- What is said of a run depends on its queue and its scanner alone, and a look ahead does
not change it, unless a line cannot be read. -/
structure Unmoved {α : Type} (φ : Run → α) : Prop where
  same : ∀ {r r' : Run}, r'.queue = r.queue → r'.scanner = r.scanner → φ r' = φ r
  lookAhead : ∀ r : Run, r.lookAhead.1.failure = none → φ r.lookAhead.1 = φ r

section

variable {α : Type} {φ : Run → α}

/-- A choice does not change it, unless the run fails with it. -/
theorem Unmoved.choose (hφ : Unmoved φ) (transitions : List Transition) (r : Run) (t : Token)
    (hfailure : r.failure = none) (h : (r.choose t transitions).1.failure = none) :
    φ (r.choose t transitions).1 = φ r := by
  induction transitions generalizing r t with
  | nil => rfl
  | cons transition transitions ih =>
      rw [Run.choose] at h ⊢
      rcases hmatch : r.matcher.matchAs transition.kind t with e | _ | ⟨next, read⟩ <;>
        rw [hmatch] at h
      case cons.error => cases h
      case cons.ok.none => exact ih r t hfailure h
      case cons.ok.some =>
          let matched :=
            { r with matcher := next }.note (r.matcher.matchEvents transition.kind t)
          have hmatched : φ matched = φ r := hφ.same rfl rfl
          by_cases hlook : transition.lookahead
          · have hlooks := matched.lookAhead_looksAhead
            have hlookAhead := hφ.lookAhead matched
            rw [hmatched] at hlookAhead
            simp only [hlook, if_true] at h ⊢
            generalize hlooked : Run.lookAhead _ = result at h ⊢
            change matched.lookAhead = result at hlooked
            rw [hlooked] at hlooks hlookAhead
            rcases result with ⟨looked, _ | _ | _⟩
            · exact hlookAhead h
            · have hlooked := (hlooks.answered rfl).trans hfailure
              exact (ih looked read hlooked h).trans (hlookAhead hlooked)
            · exact hlookAhead h
          · simp only [hlook] at h ⊢
            exact hmatched

/-- Taking a token does not change it, unless the run fails with it. -/
theorem Unmoved.take (hφ : Unmoved φ) {r : Run} {t : Token} (hfailure : r.failure = none)
    (h : (r.take t).failure = none) : φ (r.take t) = φ r := by
  have hchoose := hφ.choose r.state.transitions r t hfailure
  cases r.takes t with
  | fails chosen heq _ htake =>
      rw [heq] at hchoose
      rw [htake] at h ⊢
      exact hchoose h
  | skips chosen e heq hfine htake =>
      rw [heq] at hchoose
      have hadded := addError_becomes chosen e
      rw [htake, hφ.same hadded.queue hadded.scanner]
      exact hchoose hfine
  | accepts chosen transition read heq htake =>
      obtain ⟨-, hfine, -⟩ := (chooses_of_eq heq).accepted transition read rfl
      rw [heq] at hchoose
      have htaken := accept_becomes chosen transition read
      rw [htake, hφ.same htaken.queue htaken.scanner]
      exact hchoose (hfine.trans hfailure)

end

theorem untaken_unmoved : Unmoved untaken where
  same := fun hqueue hscanner => by rw [untaken, untaken, hqueue, hscanner]
  lookAhead := lookAhead_untaken

/-- A token is fetched from the queue.  If the queue is empty, it is fetched from the scanner, and
there is always the end of the source. -/
theorem next_cases {r fetched : Run} {t : Token} (h : r.next = (fetched, some t)) :
    (r.queue = t :: fetched.queue ∧ fetched.scanner = r.scanner) ∨
      r.queue = [] ∧ fetched.queue = [] ∧
        ((r.scanner.source = [] ∧ t.isEof = true) ∨
          ∃ chars, r.scanner.source = .line chars :: fetched.scanner.source ∧
            t.isEof = false) := by
  obtain ⟨limit, state, matcher, builder, ⟨source, line⟩, queue, ended, errors, failure, log⟩ := r
  rcases queue with _ | ⟨first, queue⟩
  · rcases source with _ | ⟨chars | fault, source⟩
    · obtain ⟨rfl, ht⟩ := Prod.mk.inj h
      obtain rfl := Option.some.inj ht
      exact .inr ⟨rfl, rfl, .inl ⟨rfl, rfl⟩⟩
    · obtain ⟨rfl, ht⟩ := Prod.mk.inj h
      obtain rfl := Option.some.inj ht
      exact .inr ⟨rfl, rfl, .inr ⟨chars, rfl, rfl⟩⟩
    · cases h
  · obtain ⟨rfl, ht⟩ := Prod.mk.inj h
    obtain rfl := Option.some.inj ht
    exact .inl ⟨rfl, rfl⟩

/-- Fetching a line leaves one token less to take. -/
theorem next_untaken {r fetched : Run} {t : Token} (h : r.next = (fetched, some t))
    (ht : t.isEof = false) : fetched.untaken + 1 = r.untaken := by
  rcases next_cases h with
    ⟨hqueue, hscanner⟩ | ⟨hqueue, hempty, ⟨hsource, heof⟩ | ⟨chars, hsource, -⟩⟩
  · rw [untaken, untaken, hqueue, hscanner, List.any_cons, ht, Bool.false_or, List.length_cons]
    split
    · rfl
    · omega
  · rw [ht] at heof
    cases heof
  · rw [untaken, untaken, hqueue, hempty, hsource]
    rfl

/-- A step is the last one or leaves one token less to take. -/
theorem step_untaken (r : Run) : r.step.isOver = true ∨ r.step.untaken + 1 = r.untaken := by
  cases r.stepping with
  | stays hover hstep =>
      left
      rwa [hstep]
  | unreadable fetched _ hnext hstep =>
      left
      rw [hstep, isOver, Option.isSome_iff_ne_none.mpr (fetched_of_eq hnext).failed]
      rfl
  | takes fetched t hover hnext hstep =>
      obtain ⟨hfailure, -⟩ := failure_of_isOver_eq_false hover
      have hfine := (fetched_of_eq hnext).answered rfl
      rw [hstep]
      cases heof : t.isEof with
      | true =>
          left
          exact Bool.or_eq_true_iff.mpr (.inr rfl)
      | false =>
          cases hfailed : (fetched.take t).failure with
          | some failure =>
              left
              exact Bool.or_eq_true_iff.mpr (.inl (by simp [hfailed]))
          | none =>
              right
              have htake := untaken_unmoved.take (hfine.trans hfailure) hfailed
              rw [← next_untaken hnext heof, ← htake]
              rfl

/-- A run is over when it has made a step for every token. -/
theorem isOver_steps {n : Nat} {r : Run} (h : r.untaken ≤ n) : (steps n r).isOver = true := by
  induction n generalizing r with
  | zero =>
      have hzero : r.untaken = 0 := Nat.le_zero.mp h
      rw [untaken] at hzero
      split at hzero
      · next hqueue =>
          rw [List.length_eq_zero_iff.mp hzero] at hqueue
          cases hqueue
      · cases hzero
  | succ n ih =>
      rw [steps]
      rcases r.step_untaken with hlast | hless
      · rw [steps_of_isOver hlast]
        exact hlast
      · exact ih (by omega)

end Run
end Gherkin
