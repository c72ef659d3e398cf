import Gherkin.Proofs.Run.Steps

/-!
# The error limit

A run with an error limit stands where the run without a limit stands, until it
has collected one error more than the limit allows.  Then it has failed with the
errors that it has, which are the first ones of the other run, and it collects no
more of them, whatever the other run goes on to find.
-/

namespace Gherkin

namespace Run

/-- The run with another error limit. -/
def withLimit (r : Run) (limit : Option Nat) : Run :=
  { r with limit := limit }

theorem withLimit_eq_self {r : Run} {limit : Option Nat} (h : r.limit = limit) :
    r.withLimit limit = r := by
  rw [withLimit, ← h]

/-! ### What a run does without looking at its limit -/

variable (r : Run) (limit : Option Nat)

theorem lookAhead_withLimit :
    (r.withLimit limit).lookAhead = (r.lookAhead.1.withLimit limit, r.lookAhead.2) := by
  simp only [lookAhead, withLimit]
  cases (r.matcher.lookThrough r.queue).verdict with
  | some verdict => rfl
  | none =>
      simp only
      cases (r.matcher.lookOn r.scanner.line r.scanner.source).error? with
      | some e => rfl
      | none => rfl

theorem choose_withLimit (t : Token) (transitions : List Transition) :
    (r.withLimit limit).choose t transitions =
      ((r.choose t transitions).1.withLimit limit, (r.choose t transitions).2) := by
  induction transitions generalizing r t with
  | nil => rfl
  | cons transition transitions ih =>
      have hmatcher : (r.withLimit limit).matcher = r.matcher := rfl
      rw [choose, choose, hmatcher]
      rcases r.matcher.matchAs transition.kind t with e | _ | ⟨next, read⟩
      · rfl
      · exact ih r t
      · let matched := { r with matcher := next }.note (r.matcher.matchEvents transition.kind t)
        have hlook : Run.lookAhead ({ r.withLimit limit with matcher := next }.note
            (r.matcher.matchEvents transition.kind t)) =
              (matched.lookAhead.1.withLimit limit, matched.lookAhead.2) :=
          lookAhead_withLimit matched limit
        have hsame : Run.lookAhead ({ r with matcher := next }.note
            (r.matcher.matchEvents transition.kind t)) = matched.lookAhead := rfl
        simp only
        rw [hlook, hsame]
        split
        · rcases matched.lookAhead with ⟨looked, _ | _ | _⟩
          · rfl
          · exact ih looked read
          · rfl
        · rfl

theorem next_withLimit :
    (r.withLimit limit).next = (r.next.1.withLimit limit, r.next.2) := by
  simp only [next, withLimit]
  cases r.queue with
  | cons t queue => rfl
  | nil =>
      simp only
      rcases r.scanner.read with ⟨_ | _, scanner⟩
      · rfl
      · rfl

/-! ### Errors stay, and so does the limit -/

variable {r limit}

theorem addError_of_room {e : SyntaxError}
    (h : (r.limit.any fun limit => limit < (r.errors ++ [e]).length) = false) :
    r.addError e = { r with errors := r.errors ++ [e] }.note [.error e] :=
  if_neg (by rw [← Bool.not_eq_true] at h; exact h)

theorem addError_of_full {e : SyntaxError}
    (h : (r.limit.any fun limit => limit < (r.errors ++ [e]).length) = true) :
    (r.addError e).errors = r.errors ++ [e] ∧
      (r.addError e).failure = some (.parse (r.errors ++ [e])) := by
  have hgiven : r.addError e =
      (({ r with errors := r.errors ++ [e] }.note [.error e]).note
        [.givenUp (r.errors ++ [e]).length]).fail (.parse (r.errors ++ [e])) :=
    if_pos h
  rw [hgiven]
  exact ⟨rfl, rfl⟩

/-- What becomes of a run that has no limit: it gets none, and it keeps its errors. -/
structure Keeps (r r' : Run) : Prop where
  limit : r'.limit = none
  errors : r.errors <+: r'.errors

theorem Keeps.trans {r r' r'' : Run} (h : r.Keeps r') (h' : r'.Keeps r'') : r.Keeps r'' :=
  ⟨h'.limit, h.errors.trans h'.errors⟩

/-- A run that has no limit, with the same errors. -/
theorem Keeps.of_errors {r r' : Run} (hlimit : r'.limit = none) (herrors : r'.errors = r.errors) :
    r.Keeps r' :=
  ⟨hlimit, [], by rw [List.append_nil, herrors]⟩

theorem addError_keeps (h : r.limit = none) (e : SyntaxError) : r.Keeps (r.addError e) := by
  rw [addError_of_room (by rw [h]; rfl)]
  exact ⟨h, List.prefix_append _ _⟩

theorem closeRule_keeps (h : r.limit = none) : r.Keeps r.closeRule := by
  rw [closeRule]
  split
  · exact ⟨h, List.prefix_rfl⟩
  · split
    · exact ⟨h, List.prefix_rfl⟩
    · next builder e _ =>
        let closed := { r with builder := builder }.note r.builder.closeEvents
        have hclosed : r.Keeps closed := ⟨h, List.prefix_rfl⟩
        exact hclosed.trans (addError_keeps hclosed.limit e)

theorem closeRules_keeps (h : r.limit = none) (n : Nat) : r.Keeps (closeRules n r) := by
  induction n generalizing r with
  | zero => exact ⟨h, List.prefix_rfl⟩
  | succ n ih =>
      have hfirst := closeRule_keeps h
      exact hfirst.trans (ih hfirst.limit)

theorem accept_keeps (h : r.limit = none) (transition : Transition) (t : Token) :
    r.Keeps (r.accept transition t) := by
  have hclosed := closeRules_keeps h transition.closes
  rw [accept]
  split
  · exact hclosed
  · obtain ⟨-, hlimit, herrors, -⟩ :=
      foldl_openRule_frame transition.opens (closeRules transition.closes r)
    apply hclosed.trans
    apply Keeps.of_errors
    · exact hlimit.trans hclosed.limit
    · exact herrors

theorem choose_keeps (h : r.limit = none) (t : Token) (transitions : List Transition) :
    r.Keeps (r.choose t transitions).1 := by
  have hchoose := choose_withLimit r none t transitions
  rw [withLimit_eq_self h] at hchoose
  apply Keeps.of_errors
  · rw [hchoose]
    rfl
  · exact (choose_chooses transitions r t).errors

theorem take_keeps (h : r.limit = none) (t : Token) : r.Keeps (r.take t) := by
  have hchosen := choose_keeps h t r.state.transitions
  cases r.takes t with
  | fails chosen hchoose _ htake =>
      rw [hchoose] at hchosen
      rwa [htake]
  | skips chosen e hchoose _ htake =>
      rw [hchoose] at hchosen
      rw [htake]
      exact hchosen.trans (addError_keeps hchosen.limit e)
  | accepts chosen transition read hchoose htake =>
      rw [hchoose] at hchosen
      rw [htake]
      exact hchosen.trans (accept_keeps hchosen.limit transition read)

theorem next_keeps (h : r.limit = none) : r.Keeps r.next.1 := by
  have hnext := next_withLimit r none
  rw [withLimit_eq_self h] at hnext
  apply Keeps.of_errors
  · rw [hnext]
    rfl
  · exact (fetched_of_eq rfl).errors

theorem step_keeps (h : r.limit = none) : r.Keeps r.step := by
  have hkeeps := next_keeps h
  cases r.stepping with
  | stays _ hstep =>
      rw [hstep]
      exact ⟨h, List.prefix_rfl⟩
  | unreadable fetched _ hnext hstep =>
      rw [hnext] at hkeeps
      rwa [hstep]
  | takes fetched t _ hnext hstep =>
      rw [hnext] at hkeeps
      have htake := take_keeps hkeeps.limit t
      rw [hstep]
      exact hkeeps.trans ⟨htake.limit, htake.errors⟩

/-! ### Two runs -/

/-- A run with a limit stands where the run without a limit stands, or it has given
up with the first errors of that run. -/
inductive Truncates (limit : Nat) (free : Run) : Run → Prop where
  | within : free.errors.length ≤ limit → Truncates limit free (free.withLimit (some limit))
  | beyond {bounded : Run} : limit < free.errors.length →
      bounded.errors = free.errors.take (limit + 1) →
      bounded.failure = some (.parse bounded.errors) → Truncates limit free bounded

variable {n : Nat} {free bounded : Run}

namespace Truncates

/-- The run with a limit has the first errors of the other run. -/
theorem errors (h : Truncates n free bounded) :
    bounded.errors = free.errors.take (n + 1) := by
  cases h with
  | within hlength => exact (List.take_of_length_le (Nat.le_succ_of_le hlength)).symm
  | beyond _ herrors _ => exact herrors

/-- Behind a run that has given up, the other run may go on as it likes. -/
theorem keeps {free' : Run} (hlength : n < free.errors.length)
    (herrors : bounded.errors = free.errors.take (n + 1))
    (hfailure : bounded.failure = some (.parse bounded.errors)) (h : free.Keeps free') :
    Truncates n free' bounded := by
  obtain ⟨more, hmore⟩ := h.errors
  apply beyond
  · rw [← hmore, List.length_append]
    omega
  · rw [herrors, ← hmore, List.take_append_of_le_length hlength]
  · exact hfailure

/-- An error too many makes a run give up, and any other error is collected by both
runs. -/
theorem addError (hfree : free.limit = none) (hlength : free.errors.length ≤ n)
    (e : SyntaxError) :
    Truncates n (free.addError e) ((free.withLimit (some n)).addError e) := by
  have hadded : free.addError e = { free with errors := free.errors ++ [e] }.note [.error e] :=
    addError_of_room (by rw [hfree]; rfl)
  have hcount : (free.errors ++ [e]).length = free.errors.length + 1 := List.length_append
  rw [hadded]
  by_cases hroom : free.errors.length < n
  · have hsmall : ¬n < (free.errors ++ [e]).length := by omega
    have hbounded : (free.withLimit (some n)).addError e =
        { free.withLimit (some n) with errors := free.errors ++ [e] }.note [.error e] :=
      addError_of_room (decide_eq_false hsmall)
    rw [hbounded]
    apply within
    exact Nat.le_of_not_lt hsmall
  · have hlarge : n < (free.errors ++ [e]).length := by omega
    obtain ⟨herrors, hfailure⟩ :=
      addError_of_full (r := free.withLimit (some n)) (e := e) (decide_eq_true hlarge)
    have hall : (free.errors ++ [e]).take (n + 1) = free.errors ++ [e] :=
      List.take_of_length_le (by omega)
    apply beyond hlarge
    · rw [herrors]
      exact hall.symm
    · rw [hfailure, herrors]

theorem closeRule (h : Truncates n free bounded) (hfree : free.limit = none) :
    Truncates n free.closeRule bounded.closeRule := by
  cases h with
  | beyond hlength herrors hfailure =>
      rw [Run.closeRule.eq_def bounded, if_pos (by rw [hfailure]; rfl)]
      exact keeps hlength herrors hfailure (closeRule_keeps hfree)
  | within hlength =>
      rw [Run.closeRule.eq_def free, Run.closeRule.eq_def (free.withLimit (some n))]
      have hfailure : (free.withLimit (some n)).failure = free.failure := rfl
      have hbuilder : (free.withLimit (some n)).builder = free.builder := rfl
      rw [hfailure, hbuilder]
      split
      · exact within hlength
      · rcases free.builder.close with ⟨builder, _ | e⟩
        · exact within hlength
        · exact @addError n ({ free with builder := builder }.note free.builder.closeEvents)
            hfree hlength e

theorem closeRules (h : Truncates n free bounded) (hfree : free.limit = none) (count : Nat) :
    Truncates n (closeRules count free) (closeRules count bounded) := by
  induction count generalizing free bounded with
  | zero => exact h
  | succ count ih => exact ih (h.closeRule hfree) (closeRule_keeps hfree).limit

theorem foldl_openRule_withLimit (rules : List Rule) (r : Run) (limit : Option Nat) :
    rules.foldl openRule (r.withLimit limit) = (rules.foldl openRule r).withLimit limit := by
  induction rules generalizing r with
  | nil => rfl
  | cons rule rules ih => exact ih (r.openRule rule)

/-- The runs stay together over a token that is accepted, also when one of them gives
up while it closes rules. -/
theorem accept (hfree : free.limit = none) (hlength : free.errors.length ≤ n)
    (transition : Transition) (t : Token) :
    Truncates n (free.accept transition t)
      ((free.withLimit (some n)).accept transition t) := by
  have hclosed := (within hlength).closeRules hfree transition.closes
  have hkeeps := closeRules_keeps hfree transition.closes
  rw [Run.accept, Run.accept]
  generalize Run.closeRules transition.closes free = closed at hclosed hkeeps ⊢
  generalize Run.closeRules transition.closes (free.withLimit (some n)) = closed' at hclosed ⊢
  obtain ⟨-, hlimit, herrors, -⟩ := foldl_openRule_frame transition.opens closed
  cases hclosed with
  | beyond hbeyond htaken hfailure =>
      rw [hfailure]
      have hopened : closed.Keeps { transition.opens.foldl openRule closed with
          builder := (transition.opens.foldl openRule closed).builder.build t
          state := transition.next } := by
        apply Keeps.of_errors
        · exact hlimit.trans hkeeps.limit
        · exact herrors
      simp only [Option.isSome_some, if_true]
      split
      · exact beyond hbeyond htaken hfailure
      · exact keeps hbeyond htaken hfailure hopened
  | within hwithin =>
      have hfailure : (closed.withLimit (some n)).failure = closed.failure := rfl
      rw [hfailure]
      split
      · exact within hwithin
      · rw [foldl_openRule_withLimit]
        apply within
        rw [herrors]
        exact hwithin

theorem take (hfree : free.limit = none) (hlength : free.errors.length ≤ n) (t : Token) :
    Truncates n (free.take t) ((free.withLimit (some n)).take t) := by
  have hchoose := choose_withLimit free (some n) t free.state.transitions
  have hkeeps := choose_keeps hfree t free.state.transitions
  have herrors := (choose_chooses free.state.transitions free t).errors
  have hstate : (free.withLimit (some n)).state = free.state := rfl
  rw [Run.take, Run.take, hstate, hchoose]
  generalize free.choose t free.state.transitions = result at hkeeps herrors ⊢
  rcases result with ⟨chosen, _ | ⟨transition, read⟩⟩
  · have hroom : chosen.errors.length ≤ n := by
      rw [herrors]
      exact hlength
    have hfailure : (chosen.withLimit (some n)).failure = chosen.failure := rfl
    simp only
    rw [hfailure]
    split
    · exact within hroom
    · rw [reject, reject]
      split
      · exact addError hkeeps.limit hroom _
      · exact addError hkeeps.limit hroom _
  · have hroom : chosen.errors.length ≤ n := by
      rw [herrors]
      exact hlength
    exact accept hkeeps.limit hroom transition read

theorem withEnded (h : Truncates n free bounded) (ended : Bool) :
    Truncates n { free with ended := ended } { bounded with ended := ended } := by
  cases h with
  | within hlength => exact @within n { free with ended := ended } hlength
  | beyond hlength herrors hfailure => exact beyond hlength herrors hfailure

/-- The runs stay together over a step. -/
theorem step (h : Truncates n free bounded) (hfree : free.limit = none) :
    Truncates n free.step bounded.step := by
  cases h with
  | beyond hlength herrors hfailure =>
      have hover : bounded.isOver = true := by
        rw [isOver, hfailure]
        rfl
      rw [step_of_isOver hover]
      exact keeps hlength herrors hfailure (step_keeps hfree)
  | within hlength =>
      cases hover : free.isOver with
      | true =>
          have hover' : (free.withLimit (some n)).isOver = true := hover
          rw [step_of_isOver hover, step_of_isOver hover']
          exact within hlength
      | false =>
          have hover' : (free.withLimit (some n)).isOver = false := hover
          have hkeeps := next_keeps hfree
          rw [step_of_not_isOver hover, step_of_not_isOver hover', next_withLimit]
          rcases hnext : free.next with ⟨fetched, _ | t⟩ <;> rw [hnext] at hkeeps
          · apply within
            rw [(fetched_of_eq hnext).errors]
            exact hlength
          · have hroom : fetched.errors.length ≤ n := by
              rw [(fetched_of_eq hnext).errors]
              exact hlength
            exact (take hkeeps.limit hroom t).withEnded t.isEof

/-- The runs stay together over any number of steps. -/
theorem steps (h : Truncates n free bounded) (hfree : free.limit = none) (count : Nat) :
    Truncates n (steps count free) (steps count bounded) := by
  induction count generalizing free bounded with
  | zero => exact h
  | succ count ih => exact ih (h.step hfree) (step_keeps hfree).limit

end Truncates

theorem steps_keeps {r : Run} (h : r.limit = none) (count : Nat) : r.Keeps (steps count r) := by
  induction count generalizing r with
  | zero => exact ⟨h, List.prefix_rfl⟩
  | succ count ih =>
      have hfirst := step_keeps h
      exact hfirst.trans (ih hfirst.limit)

/-- The runs stay together to the end. -/
theorem Truncates.complete {r : Run} (h : r.limit = none) (hlength : r.errors.length ≤ n) :
    Truncates n r.complete (r.withLimit (some n)).complete := by
  have hsteps := (Truncates.within hlength).steps h (r.unread + 1)
  exact hsteps.closeRule (steps_keeps h _).limit

/-- A run that has failed with errors has failed with those that it has collected, and there
are some. -/
def ListsErrors (r : Run) : Prop :=
  ∀ errors, r.failure = some (.parse errors) → errors = r.errors ∧ errors ≠ []

theorem listsErrors_of_failure {r : Run} (h : r.failure = none) : r.ListsErrors := by
  intro errors hfailure
  rw [h] at hfailure
  cases hfailure

theorem addError_listsErrors {r : Run} (h : r.failure = none) (e : SyntaxError) :
    (r.addError e).ListsErrors := by
  intro errors hfailure
  cases hany : r.limit.any fun limit => limit < (r.errors ++ [e]).length with
  | true =>
      obtain ⟨herrors, hgiven⟩ := addError_of_full hany
      rw [hgiven] at hfailure
      obtain rfl := Failure.parse.inj (Option.some.inj hfailure)
      exact ⟨herrors.symm, List.append_ne_nil_of_right_ne_nil _ (List.cons_ne_nil _ _)⟩
  | false =>
      have hnone : (r.addError e).failure = none := by
        rw [addError_of_room hany]
        exact h
      exact listsErrors_of_failure hnone errors hfailure

theorem closeRule_listsErrors {r : Run} (h : r.ListsErrors) : r.closeRule.ListsErrors := by
  rw [closeRule]
  split
  · exact h
  · next hnot =>
      have hfailure : r.failure = none := by simpa using hnot
      split
      · exact listsErrors_of_failure hfailure
      · next builder e _ =>
          exact addError_listsErrors
            (r := { r with builder := builder }.note r.builder.closeEvents) hfailure e

theorem closeRules_listsErrors {r : Run} (h : r.ListsErrors) (n : Nat) :
    (closeRules n r).ListsErrors := by
  induction n generalizing r with
  | zero => exact h
  | succ n ih => exact ih (closeRule_listsErrors h)

theorem accept_listsErrors {r : Run} (h : r.ListsErrors) (transition : Transition) (t : Token) :
    (r.accept transition t).ListsErrors := by
  have hclosed := closeRules_listsErrors h transition.closes
  rw [accept]
  split
  · exact hclosed
  · next hnot =>
      obtain ⟨-, -, -, hfailure⟩ :=
        foldl_openRule_frame transition.opens (closeRules transition.closes r)
      apply listsErrors_of_failure
      rw [Option.not_isSome_iff_eq_none] at hnot
      exact hfailure.trans hnot

/-- A look ahead does not fail with errors. -/
theorem LooksAhead.failure {r : Run} {result : Run × Option Bool} {errors : List SyntaxError}
    (hlooks : r.LooksAhead result) (h : result.1.failure = some (.parse errors)) :
    r.failure = some (.parse errors) := by
  rcases hverdict : result.2 with _ | verdict
  · obtain ⟨e, he⟩ := hlooks.unanswered hverdict
    rw [he] at h
    cases h
  · rw [← hlooks.answered (Option.isSome_of_eq_some hverdict), h]

/-- A choice does not fail with errors. -/
theorem failure_of_choose {r : Run} {t : Token} {transitions : List Transition}
    {errors : List SyntaxError}
    (h : (r.choose t transitions).1.failure = some (.parse errors)) :
    r.failure = some (.parse errors) := by
  fun_induction r.choose t transitions with
  | case1 r t => exact h
  | case2 r t transition transitions hmatch ih => exact ih h
  | case3 r t transition transitions e hmatch => cases h
  | case4 r t transition transitions next read hmatch matched _ looked hlook
  | case6 r t transition transitions next read hmatch matched _ looked hlook =>
      exact (looksAhead_of_eq hlook).failure h
  | case5 r t transition transitions next read hmatch matched _ looked hlook ih =>
      exact (looksAhead_of_eq hlook).failure (ih h)
  | case7 r t transition transitions next read hmatch matched => exact h

theorem take_listsErrors {r : Run} (h : r.ListsErrors) (t : Token) :
    (r.take t).ListsErrors := by
  have hchosen : (r.choose t r.state.transitions).1.ListsErrors := by
    intro errors hfailure
    rw [(choose_chooses r.state.transitions r t).errors]
    exact h errors (failure_of_choose hfailure)
  cases r.takes t with
  | fails chosen hchoose _ htake =>
      rw [hchoose] at hchosen
      rwa [htake]
  | skips chosen e _ hfine htake =>
      rw [htake]
      exact addError_listsErrors hfine e
  | accepts chosen transition read hchoose htake =>
      rw [hchoose] at hchosen
      rw [htake]
      exact accept_listsErrors hchosen transition read

theorem step_listsErrors {r : Run} (h : r.ListsErrors) : r.step.ListsErrors := by
  cases r.stepping with
  | stays _ hstep => rwa [hstep]
  | unreadable fetched _ hnext hstep =>
      obtain ⟨e, he⟩ := (fetched_of_eq hnext).unanswered rfl
      intro errors hscan
      rw [hstep, he] at hscan
      cases hscan
  | takes fetched t _ hnext hstep =>
      have hfetched := fetched_of_eq hnext
      have hlists : fetched.ListsErrors := by
        intro errors hfailure
        rw [hfetched.errors]
        exact h errors ((hfetched.answered rfl).symm.trans hfailure)
      rw [hstep]
      exact take_listsErrors hlists t

theorem complete_listsErrors {r : Run} (h : r.ListsErrors) : r.complete.ListsErrors :=
  closeRule_listsErrors (steps_of_step (P := Run.ListsErrors) step_listsErrors h _)

/-- A list of errors that a run comes to is the list of those that it has collected. -/
theorem ListsErrors.of_outcome {r : Run} (h : r.ListsErrors) {errors : List SyntaxError}
    (houtcome : r.outcome = .error (.parse errors)) : errors = r.errors ∧ errors ≠ [] := by
  rw [outcome] at houtcome
  split at houtcome
  · next failure hfailure =>
      obtain rfl := Except.error.inj houtcome
      exact h errors hfailure
  · split at houtcome
    · cases houtcome
    · next hsome =>
        obtain rfl := Failure.parse.inj (Except.error.inj houtcome)
        rw [List.isEmpty_iff] at hsome
        exact ⟨rfl, hsome⟩

/-- A run that has come to a document has collected no errors. -/
theorem errors_of_outcome_eq_ok {r : Run} {document : Document}
    (h : r.outcome = .ok document) : r.errors = [] := by
  rw [outcome] at h
  split at h
  · cases h
  · split at h
    · next hnone => exact List.isEmpty_iff.mp hnone
    · cases h

/-- What the run with a limit comes to, by what the run without a limit comes to. -/
theorem Truncates.outcome (h : Truncates n free bounded) :
    bounded.outcome =
      if free.errors.length ≤ n then free.outcome
      else .error (.parse (free.errors.take (n + 1))) := by
  cases h with
  | within hlength =>
      rw [if_pos hlength]
      rfl
  | beyond hlength herrors hfailure =>
      rw [if_neg (Nat.not_le_of_lt hlength), ← herrors, Run.outcome, hfailure]

/-- A run that has given up stays as it is. -/
theorem Truncates.settled (h : Truncates n free bounded) (hlength : n < bounded.errors.length) :
    bounded.step = bounded ∧ bounded.closeRule = bounded := by
  have hgiven : bounded.failure.isSome = true := by
    cases h with
    | within hroom => exact absurd hlength (Nat.not_lt_of_le hroom)
    | beyond _ _ hfailure =>
        rw [hfailure]
        rfl
  constructor
  · apply step_of_isOver
    rw [isOver, hgiven, Bool.true_or]
  · rw [Run.closeRule, if_pos hgiven]

end Run

namespace Parser

/-- The errors that a parser collects while it reads a source, whatever it comes to. -/
def collected (p : Parser) (source : Source) : List SyntaxError :=
  match p.run source with
  | .ok r => r.complete.errors
  | .error _ => []

/-- A run starts without errors, under the limit of its parser. -/
theorem run_frame {p : Parser} {source : Source} {r : Run} (h : p.run source = .ok r) :
    r.limit = p.limit ∧ r.errors = [] ∧ r.failure = none := by
  rw [run] at h
  split at h
  · cases h
  · rw [Run.start] at h
    split at h
    · cases h
    · obtain rfl := Except.ok.inj h
      exact ⟨rfl, rfl, rfl⟩

/-- The runs of a parser with a limit and of one without are the same, up to the limit. -/
theorem run_withLimit (resolver : Resolver) (limit : Option Nat) (source : Source) :
    Parser.run ⟨resolver, limit⟩ source =
      (Parser.run ⟨resolver, none⟩ source).map fun r => r.withLimit limit := by
  simp only [run]
  cases Matcher.start resolver with
  | error e => rfl
  | ok matcher =>
      simp only [Run.start]
      cases matcher.reset with
      | error e => rfl
      | ok reset => rfl

/-- What a parser comes to lists the errors that it has collected, if it lists any. -/
theorem errors_eq_collected {p : Parser} {source : Source} {errors : List SyntaxError}
    (h : p.parse source = .error (.parse errors)) :
    errors = p.collected source ∧ errors ≠ [] := by
  rw [parse, report_outcome] at h
  rw [collected]
  cases hrun : p.run source with
  | error e =>
      rw [hrun] at h
      cases h
  | ok r =>
      rw [hrun] at h
      obtain ⟨-, -, hfailure⟩ := run_frame hrun
      exact (Run.complete_listsErrors (Run.listsErrors_of_failure hfailure)).of_outcome h

/-- A parser that comes to a document has collected no errors. -/
theorem collected_of_parse_eq_ok {p : Parser} {source : Source} {document : Document}
    (h : p.parse source = .ok document) : p.collected source = [] := by
  obtain ⟨r, hrun, houtcome⟩ := exists_run_of_parse h
  rw [collected, hrun]
  exact Run.errors_of_outcome_eq_ok houtcome

section Limited

variable (resolver : Resolver) (limit : Nat) (source : Source)

/-- At the end, and at every step on the way there, the run with a limit stands where the run
without one stands, or it has given up. -/
theorem truncates_of_run {resolver : Resolver} {source : Source} {start : Run}
    (h : Parser.run ⟨resolver, none⟩ source = .ok start) :
    Parser.run ⟨resolver, some limit⟩ source = .ok (start.withLimit (some limit)) ∧
      (∀ n, Run.Truncates limit (Run.steps n start)
        (Run.steps n (start.withLimit (some limit)))) ∧
      Run.Truncates limit start.complete (start.withLimit (some limit)).complete := by
  obtain ⟨hlimit, herrors, -⟩ := run_frame h
  have hlength : start.errors.length ≤ limit := by
    rw [herrors]
    exact Nat.zero_le limit
  refine ⟨?_, ?_, ?_⟩
  · rw [run_withLimit, h]
    rfl
  · exact (Run.Truncates.within hlength).steps hlimit
  · exact Run.Truncates.complete hlimit hlength

theorem collected_limit :
    collected ⟨resolver, some limit⟩ source =
      (collected ⟨resolver, none⟩ source).take (limit + 1) := by
  rw [collected, collected]
  cases hrun : Parser.run ⟨resolver, none⟩ source with
  | error e =>
      rw [run_withLimit, hrun]
      exact List.take_nil.symm
  | ok start =>
      obtain ⟨hlimited, -, hcomplete⟩ := truncates_of_run limit hrun
      rw [hlimited]
      exact hcomplete.errors

/-- A parser with a limit comes to what the parser without one comes to, or to the first
errors of that one. -/
theorem parse_limit_eq :
    parse ⟨resolver, some limit⟩ source =
      if (collected ⟨resolver, none⟩ source).length ≤ limit then
        parse ⟨resolver, none⟩ source
      else .error (.parse ((collected ⟨resolver, none⟩ source).take (limit + 1))) := by
  rw [parse, parse, report_outcome, report_outcome, collected]
  cases hrun : Parser.run ⟨resolver, none⟩ source with
  | error e =>
      rw [run_withLimit, hrun]
      exact (if_pos (Nat.zero_le limit)).symm
  | ok start =>
      obtain ⟨hlimited, -, hcomplete⟩ := truncates_of_run limit hrun
      rw [hlimited]
      exact hcomplete.outcome

/-- A limit only truncates.  Without one the errors are all that are collected; with one they
are the first of these, up to one more than the limit, and nothing is collected behind
them.  An outcome stays the same unless there are more errors than the limit allows. -/
theorem parse_limit :
    let limited : Parser := ⟨resolver, some limit⟩
    let unlimited : Parser := ⟨resolver, none⟩
    let collected := unlimited.collected source
    (∀ document, unlimited.parse source = .ok document → limited.parse source = .ok document) ∧
      (∀ errors, unlimited.parse source = .error (.parse errors) →
        errors = collected ∧ limited.parse source = .error (.parse (errors.take (limit + 1)))) ∧
      (∀ failure, unlimited.parse source = .error failure →
        limited.parse source =
          if collected.length ≤ limit then .error failure
          else .error (.parse (collected.take (limit + 1)))) ∧
      limited.collected source = collected.take (limit + 1) ∧
      (∀ errors, limited.parse source = .error (.parse errors) →
        0 < errors.length ∧ errors.length ≤ limit + 1) ∧
      ∀ start, unlimited.run source = .ok start → ∀ n,
        let r := Run.steps n (start.withLimit (some limit))
        r.errors = (Run.steps n start).errors.take (limit + 1) ∧
          (limit < r.errors.length → r.step = r ∧ r.closeRule = r) := by
  intro limited unlimited collected
  have hparse : limited.parse source =
      if collected.length ≤ limit then unlimited.parse source
      else .error (.parse (collected.take (limit + 1))) :=
    parse_limit_eq resolver limit source
  refine ⟨?_, ?_, ?_, collected_limit resolver limit source, ?_, ?_⟩
  · intro document hunlimited
    have hnone : collected = [] := collected_of_parse_eq_ok hunlimited
    have hroom : collected.length ≤ limit := by
      rw [hnone]
      exact Nat.zero_le limit
    rw [hparse, if_pos hroom]
    exact hunlimited
  · intro errors hunlimited
    obtain ⟨herrors, -⟩ := errors_eq_collected hunlimited
    refine ⟨herrors, ?_⟩
    rw [hparse, hunlimited]
    by_cases hroom : collected.length ≤ limit
    · rw [if_pos hroom, herrors, List.take_of_length_le (Nat.le_succ_of_le hroom)]
    · rw [if_neg hroom, herrors]
  · intro failure hunlimited
    rw [hparse, hunlimited]
  · intro errors hlimited
    obtain ⟨herrors, hsome⟩ := errors_eq_collected hlimited
    have hlength : errors.length ≤ limit + 1 := by
      rw [herrors, collected_limit]
      exact List.length_take_le _ _
    exact ⟨List.length_pos_iff.mpr hsome, hlength⟩
  · intro start hstart n
    obtain ⟨-, hsteps, -⟩ := truncates_of_run limit hstart
    exact ⟨(hsteps n).errors, (hsteps n).settled⟩

end Limited

/-- Twelve lines that are not expected. -/
theorem parse_limit_stray :
    let source := Source.ofLines (List.replicate 12 "stray".toList)
    ∃ errors, parse ⟨.builtin, none⟩ source = .error (.parse errors) ∧ errors.length = 12 ∧
      parse {} source = .error (.parse (errors.take 11)) := by
  intro source
  have hcount : (match parse ⟨.builtin, none⟩ source with
      | .error (.parse errors) => errors.length == 12
      | _ => false) = true := by
    decide +kernel
  obtain ⟨-, herrors, -⟩ := parse_limit .builtin maxErrors source
  cases hparse : parse ⟨.builtin, none⟩ source with
  | ok document =>
      rw [hparse] at hcount
      cases hcount
  | error failure =>
      rw [hparse] at hcount
      cases failure with
      | scan e => cases hcount
      | dialect e => cases hcount
      | parse errors => exact ⟨errors, rfl, beq_iff_eq.mp hcount, (herrors errors hparse).2⟩

end Parser
end Gherkin
