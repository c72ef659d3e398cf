import Gherkin.Proofs.Dialect.Resolving
import Gherkin.Proofs.Reader.Pragmas
import Gherkin.Proofs.Run.DocStrings
import Gherkin.Proofs.Run.Limit

/-!
# Runs with other resolvers

Two runs are twins when they differ in nothing but their resolvers and their
logs, and the resolvers give the same answers for the languages that the runs
ask for.  Twins stay twins, because a resolver is asked for nothing but the
language of a pragma at the start of a document.
-/

namespace Gherkin

namespace Matcher

/-- The matcher with another resolver. -/
def withResolver (m : Matcher) (resolver : Resolver) : Matcher :=
  { m with resolver := resolver }

variable (m : Matcher) (resolver : Resolver)

theorem glance_withResolver (t : Token) : (m.withResolver resolver).glance t = m.glance t :=
  rfl

theorem lookThrough_withResolver (ts : List Token) :
    (m.withResolver resolver).lookThrough ts = m.lookThrough ts := by
  induction ts with
  | nil => rfl
  | cons t ts ih => rw [lookThrough, lookThrough, glance_withResolver, ih]

theorem lookOn_withResolver (line : Nat) (source : Source) :
    (m.withResolver resolver).lookOn line source = m.lookOn line source := by
  induction source generalizing line with
  | nil => rfl
  | cons read source ih =>
      rw [lookOn, lookOn]
      rcases Scanner.read ⟨read :: source, line⟩ with ⟨_ | t, scanner⟩
      · rfl
      · simp only [glance_withResolver, ih]

/-- Two matchers with different resolvers have read the same. -/
inductive ReadsAlike (P : String → Prop) :
    Except DialectError (Option (Matcher × Token)) →
      Except DialectError (Option (Matcher × Token)) → Prop where
  | failed (e : DialectError) : ReadsAlike P (.error e) (.error e)
  | missed : ReadsAlike P (.ok none) (.ok none)
  | read {next : Matcher} {resolver : Resolver} (t : Token) :
    next.resolver.AgreesOn P resolver →
      ReadsAlike P (.ok (some (next, t))) (.ok (some (next.withResolver resolver, t)))

variable {m resolver} {P : String → Prop}

/-- Only a pragma asks the resolver. -/
theorem matchAs_withResolver (h : m.resolver.AgreesOn P resolver) {kind : TokenKind} {t : Token}
    (htag : kind = .language → ∀ tag, t.line.bind Line.languageTag? = some tag → P tag) :
    ReadsAlike P (m.matchAs kind t) ((m.withResolver resolver).matchAs kind t) := by
  have hcontent : (m.withResolver resolver).content? kind t.line = m.content? kind t.line := rfl
  rw [matchAs, matchAs, hcontent]
  cases hsome : m.content? kind t.line with
  | none => exact .missed
  | some content =>
      by_cases hlanguage : kind = .language
      · subst hlanguage
        have hP : P (content.text.getD "") := by
          cases hline : t.line with
          | none =>
              rw [hline] at hsome
              cases hsome
          | some l =>
              rw [hline] at hsome
              obtain ⟨tag, hl, rfl⟩ := Option.map_eq_some_iff.mp hsome
              exact htag rfl tag (by rw [hline, Option.bind_some, hl])
        simp only [after, withResolver]
        rcases h.resolve hP ⟨t.number, t.lineIndent + 1⟩ with
          ⟨e, hr, hs⟩ | ⟨d, r', s', hr, hs, hagrees⟩
        · rw [hr, hs]
          exact .failed e
        · rw [hr, hs]
          have hnext : ({ m with resolver := r', dialect := d } : Matcher).resolver.AgreesOn P s' :=
            hagrees
          exact .read _ hnext
      · cases kind with
        | language => exact absurd rfl hlanguage
        | docStringSeparator =>
            have hnext : ({ m with docString := t.line.bind m.docStringAfter } :
                Matcher).resolver.AgreesOn P resolver := h
            exact .read _ hnext
        | _ => exact .read _ h

/-- Only a resolution changes the resolver. -/
theorem resolver_of_matchAs {next : Matcher} {kind : TokenKind} {t read : Token}
    (h : m.matchAs kind t = .ok (some (next, read))) :
    next.resolver = m.resolver ∨
      ∃ tag place d, m.resolver.resolve tag place = .ok (d, next.resolver) := by
  obtain ⟨content, -, hafter, -⟩ := exists_content_of_matchAs h
  rcases after_cases hafter with ⟨-, d, resolver, hresolve, rfl⟩ | ⟨-, rfl⟩ | ⟨-, -, rfl⟩
  · exact .inr ⟨_, _, d, hresolve⟩
  · exact .inl rfl
  · exact .inl rfl

end Matcher

namespace Run

/-- The run with another resolver and another log. -/
def withResolver (r : Run) (resolver : Resolver) (log : Array Event) : Run :=
  { r with matcher := r.matcher.withResolver resolver, log := log }

/-- Two runs differ in nothing but their resolvers and their logs, and the resolvers give the same
answers for languages with a property. -/
inductive Twin (P : String → Prop) (r : Run) : Run → Prop where
  | intro {resolver : Resolver} (log : Array Event) :
    r.matcher.resolver.AgreesOn P resolver → Twin P r (r.withResolver resolver log)

variable {P : String → Prop} {r s : Run}

namespace Twin

theorem note (h : Twin P r s) (events events' : List Event) :
    Twin P (r.note events) (s.note events') := by
  cases h with
  | intro log hagrees => exact intro (r := r.note events) _ hagrees

theorem fail (h : Twin P r s) (failure : Failure) : Twin P (r.fail failure) (s.fail failure) := by
  cases h with
  | intro log hagrees => exact intro (r := r.fail failure) _ hagrees

theorem addError (h : Twin P r s) (e : SyntaxError) : Twin P (r.addError e) (s.addError e) := by
  cases h with
  | @intro resolver log hagrees =>
      let added : Run := { r with errors := r.errors ++ [e] }
      let added' : Run := added.withResolver resolver log
      have hadded : Twin P (added.note [.error e]) (added'.note [.error e]) :=
        (intro (r := added) log hagrees).note _ _
      cases hlimit : r.limit.any fun limit => limit < (r.errors ++ [e]).length with
      | false =>
          have hroom : r.addError e = added.note [.error e] := addError_of_room hlimit
          have hroom' : (r.withResolver resolver log).addError e = added'.note [.error e] :=
            addError_of_room hlimit
          rw [hroom, hroom']
          exact hadded
      | true =>
          have hfull : r.addError e = ((added.note [.error e]).note
              [.givenUp (r.errors ++ [e]).length]).fail (.parse (r.errors ++ [e])) :=
            if_pos hlimit
          have hfull' : (r.withResolver resolver log).addError e = ((added'.note [.error e]).note
              [.givenUp (r.errors ++ [e]).length]).fail (.parse (r.errors ++ [e])) :=
            if_pos hlimit
          rw [hfull, hfull']
          exact (hadded.note _ _).fail _

theorem closeRule (h : Twin P r s) : Twin P r.closeRule s.closeRule := by
  cases h with
  | @intro resolver log hagrees =>
      rw [Run.closeRule, Run.closeRule]
      have hfailure : (r.withResolver resolver log).failure = r.failure := rfl
      have hbuilder : (r.withResolver resolver log).builder = r.builder := rfl
      rw [hfailure, hbuilder]
      split
      · exact intro log hagrees
      · rcases r.builder.close with ⟨builder, _ | e⟩
        · exact (intro (r := { r with builder := builder }) log hagrees).note _ _
        · exact ((intro (r := { r with builder := builder }) log hagrees).note _ _).addError e

theorem closeRules (h : Twin P r s) (n : Nat) :
    Twin P (Run.closeRules n r) (Run.closeRules n s) := by
  induction n generalizing r s with
  | zero => exact h
  | succ n ih => exact ih h.closeRule

theorem openRules (h : Twin P r s) (rules : List Rule) :
    Twin P (rules.foldl openRule r) (rules.foldl openRule s) := by
  induction rules generalizing r s with
  | nil => exact h
  | cons rule rules ih =>
      cases h with
      | intro log hagrees =>
          exact ih ((intro (r := { r with builder := r.builder.start rule }) log hagrees).note _ _)

theorem accept (h : Twin P r s) (transition : Transition) (t : Token) :
    Twin P (r.accept transition t) (s.accept transition t) := by
  have hclosed := h.closeRules transition.closes
  rw [Run.accept, Run.accept]
  generalize Run.closeRules transition.closes r = closed at hclosed ⊢
  generalize Run.closeRules transition.closes s = closed' at hclosed ⊢
  have hopened := hclosed.openRules transition.opens
  cases hclosed with
  | @intro resolver log hagrees =>
      have hfailure : (closed.withResolver resolver log).failure = closed.failure := rfl
      rw [hfailure]
      split
      · exact intro log hagrees
      · generalize transition.opens.foldl openRule closed = opened at hopened ⊢
        generalize transition.opens.foldl openRule (closed.withResolver resolver log) = opened'
          at hopened ⊢
        cases hopened with
        | intro log hagrees =>
            exact intro (r := { opened with
              builder := opened.builder.build t, state := transition.next }) log hagrees

theorem reject (h : Twin P r s) (t : Token) : Twin P (r.reject t) (s.reject t) := by
  have hstate : s.state = r.state := by
    cases h with
    | intro log hagrees => rfl
  rw [Run.reject, Run.reject, hstate]
  split
  · exact h.addError _
  · exact h.addError _

theorem lookAhead (h : Twin P r s) :
    Twin P r.lookAhead.1 s.lookAhead.1 ∧ s.lookAhead.2 = r.lookAhead.2 := by
  cases h with
  | @intro resolver log hagrees =>
      have hqueued : (r.withResolver resolver log).matcher.lookThrough r.queue =
          r.matcher.lookThrough r.queue := Matcher.lookThrough_withResolver _ _ _
      have hread : (r.withResolver resolver log).matcher.lookOn r.scanner.line r.scanner.source =
          r.matcher.lookOn r.scanner.line r.scanner.source := Matcher.lookOn_withResolver _ _ _ _
      rw [Run.lookAhead, Run.lookAhead]
      have hqueue : (r.withResolver resolver log).queue = r.queue := rfl
      have hscanner : (r.withResolver resolver log).scanner = r.scanner := rfl
      rw [hqueue, hscanner, hqueued, hread]
      generalize r.matcher.lookThrough r.queue = queued
      generalize r.matcher.lookOn r.scanner.line r.scanner.source = read
      cases queued.verdict with
      | some verdict =>
          exact ⟨(intro (r := { r with queue := queued.tokens }) log hagrees).note _ _, rfl⟩
      | none =>
          have hlooked := (intro (r := { r with
            queue := queued.tokens ++ read.tokens, scanner := read.scanner }) log hagrees).note
              (queued.events ++ read.events) (queued.events ++ read.events)
          simp only
          cases read.error? with
          | some e => exact ⟨hlooked.fail _, rfl⟩
          | none => exact ⟨hlooked, rfl⟩

/-- Twins choose the same transition. -/
theorem choose (h : Twin P r s) {transitions : List Transition} {t : Token}
    (htag : ∀ u ∈ transitions, u.kind = .language →
      ∀ tag, t.line.bind Line.languageTag? = some tag → P tag) :
    Twin P (r.choose t transitions).1 (s.choose t transitions).1 ∧
      (s.choose t transitions).2 = (r.choose t transitions).2 := by
  induction transitions generalizing r s t with
  | nil => exact ⟨h, rfl⟩
  | cons transition transitions ih =>
      have hothers {r s : Run} (h : Twin P r s) {read : Token} (hread : read.line = t.line) :
          Twin P (r.choose read transitions).1 (s.choose read transitions).1 ∧
            (s.choose read transitions).2 = (r.choose read transitions).2 := by
        apply ih h
        rw [hread]
        exact fun u hu => htag u (List.mem_cons_of_mem _ hu)
      obtain @⟨resolver, log, hagrees⟩ := h
      have hmatch := Matcher.matchAs_withResolver hagrees
        (htag transition List.mem_cons_self)
      rw [Run.choose, Run.choose]
      change Matcher.ReadsAlike P _ ((r.withResolver resolver log).matcher.matchAs _ _) at hmatch
      generalize hreads : r.matcher.matchAs transition.kind t = result at hmatch
      generalize (r.withResolver resolver log).matcher.matchAs transition.kind t = result' at hmatch
      cases hmatch with
      | failed e => exact ⟨((intro log hagrees).note _ _).fail _, rfl⟩
      | missed => exact hothers (intro log hagrees) rfl
      | @read next resolver' read hnext =>
          have hline : read.line = t.line := Matcher.line_of_matchAs hreads
          let matched := { r with matcher := next }.note (r.matcher.matchEvents transition.kind t)
          let matched' := { r.withResolver resolver log with
            matcher := next.withResolver resolver' }.note
              ((r.withResolver resolver log).matcher.matchEvents transition.kind t)
          have hmatched : Twin P matched matched' :=
            (intro (r := { r with matcher := next }) log hnext).note _ _
          obtain ⟨hlooked, hverdict⟩ := hmatched.lookAhead
          have hlook : Run.lookAhead ({ r with matcher := next }.note
              (r.matcher.matchEvents transition.kind t)) = matched.lookAhead := rfl
          have hlook' : Run.lookAhead ({ r.withResolver resolver log with
              matcher := next.withResolver resolver' }.note
                ((r.withResolver resolver log).matcher.matchEvents transition.kind t)) =
              matched'.lookAhead := rfl
          simp only
          rw [hlook, hlook']
          split
          · generalize matched.lookAhead = result at hlooked hverdict ⊢
            generalize matched'.lookAhead = result' at hlooked hverdict ⊢
            rcases result with ⟨looked, _ | _ | _⟩ <;> rcases result' with ⟨looked', verdict'⟩ <;>
              obtain rfl := hverdict
            · exact ⟨hlooked, rfl⟩
            · exact hothers hlooked hline
            · exact ⟨hlooked, rfl⟩
          · exact ⟨hmatched, rfl⟩

theorem take (h : Twin P r s) {t : Token}
    (htag : r.state = .start → ∀ tag, t.line.bind Line.languageTag? = some tag → P tag) :
    Twin P (r.take t) (s.take t) := by
  have hstate : s.state = r.state := by
    cases h with
    | intro log hagrees => rfl
  have hpragma : ∀ u ∈ r.state.transitions, u.kind = .language →
      ∀ tag, t.line.bind Line.languageTag? = some tag → P tag := by
    intro u hu hkind
    refine htag ?_
    by_contra hne
    exact State.kind_ne_language hne u hu hkind
  obtain ⟨hchosen, hchoice⟩ := h.choose hpragma
  rw [Run.take, Run.take, hstate]
  generalize r.choose t r.state.transitions = result at hchosen hchoice ⊢
  generalize s.choose t r.state.transitions = result' at hchosen hchoice ⊢
  rcases result with ⟨chosen, _ | ⟨transition, read⟩⟩ <;> rcases result' with ⟨chosen', choice'⟩ <;>
    obtain rfl := hchoice
  · have hfailure : chosen'.failure = chosen.failure := by
      cases hchosen with
      | intro log hagrees => rfl
    simp only
    rw [hfailure]
    split
    · exact hchosen
    · exact hchosen.reject t
  · exact hchosen.accept transition read

theorem next (h : Twin P r s) : Twin P r.next.1 s.next.1 ∧ s.next.2 = r.next.2 := by
  cases h with
  | @intro resolver log hagrees =>
      have hqueue : (r.withResolver resolver log).queue = r.queue := rfl
      have hscanner : (r.withResolver resolver log).scanner = r.scanner := rfl
      rw [Run.next, Run.next, hqueue, hscanner]
      cases r.queue with
      | cons t queue => exact ⟨intro (r := { r with queue := queue }) log hagrees, rfl⟩
      | nil =>
          simp only
          rcases r.scanner.read with ⟨_ | _, scanner⟩
          · let fetched : Run := { r with scanner := scanner, queue := [] }
            exact ⟨(intro (r := fetched) log hagrees).fail _, rfl⟩
          · exact ⟨intro (r := { r with scanner := scanner, queue := [] }) log hagrees, rfl⟩

/-- A pragma at the start of a document is all that a resolver is asked for. -/
theorem step (h : Twin P r s)
    (htag : r.state = .start → ∀ tag, r.upcoming.bind Line.languageTag? = some tag → P tag) :
    Twin P r.step s.step := by
  have hover : s.isOver = r.isOver := by
    cases h with
    | intro log hagrees => rfl
  cases hr : r.isOver with
  | true =>
      rw [step_of_isOver hr, step_of_isOver (hover.trans hr)]
      exact h
  | false =>
      rw [step_of_not_isOver hr, step_of_not_isOver (hover.trans hr)]
      obtain ⟨hfetched, htoken⟩ := h.next
      rw [upcoming, hr, if_neg Bool.false_ne_true] at htag
      rcases hnext : r.next with ⟨fetched, _ | t⟩ <;> rcases hnext' : s.next with ⟨fetched', t'⟩ <;>
        rw [hnext] at htag <;> rw [hnext, hnext'] at hfetched htoken <;> obtain rfl := htoken
      · exact hfetched
      · have htaken := hfetched.take (t := t) (by
          rw [(fetched_of_eq hnext).state]
          exact htag)
        simp only
        generalize fetched.take t = taken at htaken
        generalize fetched'.take t = taken' at htaken
        cases htaken with
        | intro log hagrees => exact intro (r := { taken with ended := t.isEof }) log hagrees

theorem steps (h : Twin P r s) {n : Nat}
    (htag : ∀ k < n, (Run.steps k r).state = .start →
      ∀ tag, (Run.steps k r).upcoming.bind Line.languageTag? = some tag → P tag) :
    Twin P (Run.steps n r) (Run.steps n s) := by
  induction n with
  | zero => exact h
  | succ n ih =>
      rw [steps_succ, steps_succ]
      exact (ih fun k hk => htag k (Nat.lt_succ_of_lt hk)).step (htag n (Nat.lt_succ_self n))

/-- Twins come to the same outcome. -/
theorem outcome_complete (h : Twin P r s)
    (htag : ∀ n, (Run.steps n r).state = .start →
      ∀ tag, (Run.steps n r).upcoming.bind Line.languageTag? = some tag → P tag) :
    s.complete.outcome = r.complete.outcome := by
  have hunread : s.unread = r.unread := by
    cases h with
    | intro log hagrees => rfl
  have hcomplete : Twin P r.complete s.complete := by
    rw [Run.complete, Run.complete, hunread]
    exact (h.steps fun k _ => htag k).closeRule
  generalize r.complete = completed at hcomplete
  generalize s.complete = completed' at hcomplete
  cases hcomplete with
  | intro log hagrees => rfl

end Twin

/-! ### What becomes of a resolver -/

/-- A step leaves the matcher as it is, or as it is behind a token that has been read. -/
theorem matcher_step (r : Run) :
    r.step.matcher = r.matcher ∨
      ∃ kind t read, r.matcher.matchAs kind t = .ok (some (r.step.matcher, read)) := by
  cases r.stepping with
  | stays _ hstep =>
      rw [hstep]
      exact .inl rfl
  | unreadable fetched _ hnext hstep =>
      rw [hstep]
      exact .inl (fetched_of_eq hnext).matcher
  | takes fetched t _ hnext hstep =>
      have hmatcher := (fetched_of_eq hnext).matcher
      have hread := choose_matcher (lookahead_only_tags fetched.state) fetched t
      have hbehind : r.step.matcher = (fetched.take t).matcher := by rw [hstep]
      rw [hbehind]
      cases fetched.takes t with
      | fails chosen hchoose _ _ | skips chosen _ hchoose _ _ =>
          exact .inl ((take_matcher (by rw [hchoose])).trans hmatcher)
      | accepts chosen transition read hchoose htake =>
          rw [hchoose] at hread
          rw [htake, (accept_frame _ transition read).1, ← hmatcher]
          exact .inr ⟨transition.kind, t, read, hread.2 transition read rfl⟩

/-- What holds of a resolver and is kept by resolving holds behind any number of steps. -/
theorem resolver_steps {Q : Resolver → Prop}
    (hQ : ∀ {r r' : Resolver} {language : String} {location : Location} {d : Dialect},
      Q r → r.resolve language location = .ok (d, r') → Q r')
    (r : Run) (h : Q r.matcher.resolver) (n : Nat) : Q (steps n r).matcher.resolver := by
  have hstep {r : Run} (h : Q r.matcher.resolver) : Q r.step.matcher.resolver := by
    rcases r.matcher_step with hsame | ⟨kind, t, read, hmatch⟩
    · rw [hsame]
      exact h
    · rcases Matcher.resolver_of_matchAs hmatch with hsame | ⟨tag, place, d, hresolve⟩
      · rw [hsame]
        exact h
      · exact hQ h hresolve
  exact steps_of_step (P := fun r => Q r.matcher.resolver) hstep h n

/-- Closing the document leaves the matcher as it is. -/
theorem matcher_complete (r : Run) :
    r.complete.matcher = (steps (r.unread + 1) r).matcher := by
  rw [complete]
  generalize steps (r.unread + 1) r = taken
  have hclosed := (closeRules_becomes 1 taken).reader
  obtain ⟨-, hmatcher⟩ := taken.reader.closeRules_frame 1
  rw [← hclosed] at hmatcher
  exact hmatcher

/-! ### The start of a document -/

/-- Nothing leads back to the start of a document. -/
theorem state_take_ne_start {t : Token} (h : r.state ≠ .start) : (r.take t).state ≠ .start := by
  cases r.takes t with
  | fails chosen hchoose _ htake =>
      rw [htake, (chooses_of_eq hchoose).state]
      exact h
  | skips chosen e hchoose _ htake =>
      rw [htake, state_addError, (chooses_of_eq hchoose).state]
      exact h
  | accepts chosen transition read hchoose htake =>
      have hchooses := chooses_of_eq hchoose
      rw [htake]
      rcases (chosen.accept_frame transition read).2 with hbehind | ⟨hbehind, -⟩
      · rw [hbehind]
        exact State.next_ne_start_of_ne h _ (hchooses.accepted transition read rfl).1
      · rw [hbehind, hchooses.state]
        exact h

theorem state_step_ne_start (h : r.state ≠ .start) : r.step.state ≠ .start := by
  cases r.stepping with
  | stays _ hstep => rwa [hstep]
  | unreadable fetched _ hnext hstep =>
      rw [hstep, (fetched_of_eq hnext).state]
      exact h
  | takes fetched t _ hnext hstep =>
      rw [hstep]
      apply state_take_ne_start
      rw [(fetched_of_eq hnext).state]
      exact h

/-- A pragma ends the start of a document, or the run fails with it. -/
theorem step_of_pragma (hstate : r.state = .start) {tag : String}
    (htag : r.upcoming.bind Line.languageTag? = some tag) :
    r.step.isOver = true ∨ r.step.state ≠ .start := by
  obtain ⟨l, hl, hlanguage⟩ := Option.bind_eq_some_iff.mp htag
  obtain ⟨fetched, t, hover, hnext, hline⟩ := exists_of_upcoming hl
  let u := State.start.move .language 0 [.feature, .featureHeader] .language
  have hsplit : State.start.transitions =
      State.start.finish :: u :: State.start.transitions.tail.tail := rfl
  have heof : fetched.matcher.matchAs State.start.finish.kind t = .ok none :=
    Matcher.matchAs_of_isOf_eq_false (Matcher.isOf_eof_of_line _ (by rw [Token.isEof, hline]; rfl))
  have hfirst := choose_cons_of_miss heof (u :: State.start.transitions.tail.tail)
  rw [← hsplit] at hfirst
  rcases hmatch : fetched.matcher.matchAs u.kind t with e | _ | ⟨next, read⟩
  · left
    have hfetched := (fetched_of_eq hnext).state
    rw [choose, hmatch] at hfirst
    rw [step_of_not_isOver hover, hnext]
    simp only
    rw [take, hfetched, hstate, hfirst]
    rfl
  · rw [Matcher.matchAs, hline] at hmatch
    have hcontent : fetched.matcher.content? u.kind (some l) =
        some { text := some tag, indent := l.indent } := congrArg (Option.map _) hlanguage
    rw [hcontent] at hmatch
    simp only at hmatch
    split at hmatch <;> cases hmatch
  · right
    rw [choose_cons_of_hit hmatch rfl, ← hstate] at hfirst
    rw [step_of_choose hover hnext hfirst rfl]
    exact fun h => State.noConfusion h

/-- At most one line is read as a pragma at the start of a document. -/
theorem eq_of_pragmas {n k : Nat} {tag tag' : String}
    (hn : (steps n r).state = .start)
    (htag : (steps n r).upcoming.bind Line.languageTag? = some tag)
    (hk : (steps k r).state = .start)
    (htag' : (steps k r).upcoming.bind Line.languageTag? = some tag') : n = k := by
  have hlater {n k : Nat} {tag tag' : String} (hn : (steps n r).state = .start)
      (htag : (steps n r).upcoming.bind Line.languageTag? = some tag)
      (hk : (steps k r).state = .start)
      (htag' : (steps k r).upcoming.bind Line.languageTag? = some tag') : ¬n < k := by
    intro hless
    obtain ⟨more, rfl⟩ := Nat.exists_eq_add_of_lt hless
    have hstays : ∀ more, (steps (n + 1 + more) r).isOver = true ∨
        (steps (n + 1 + more) r).state ≠ .start := by
      intro more
      induction more with
      | zero =>
          rw [Nat.add_zero, steps_succ]
          exact step_of_pragma hn htag
      | succ more ih =>
          rw [← Nat.add_assoc, steps_succ]
          rcases ih with hover | hstate
          · left
            rw [step_of_isOver hover]
            exact hover
          · exact .inr (state_step_ne_start hstate)
    rw [show n + more + 1 = n + 1 + more by omega] at hk htag'
    rcases hstays more with hover | hstate
    · rw [upcoming, if_pos hover] at htag'
      cases htag'
    · exact hstate hk
  have hnot := hlater hn htag hk htag'
  have hnot' := hlater hk htag' hn htag
  omega

end Run
end Gherkin
