import Gherkin.Proofs.Reader.Titles
import Gherkin.Proofs.Retelling.Builders
import Gherkin.Proofs.Run.DocStrings

/-!
# Readers in other places

A reader over the lines of a source and a reader over the same lines in their new
places go on in step: what the second one holds is what the first one holds, told
again, apart from fillers.  So they come to the same outcome, told again.
-/

namespace Gherkin

variable {R : Relocation} {r r' : Reader} {t : Token} {ts : List Token}

/-- A line of free text goes into the open doc string or into the open description. -/
theorem State.getLast?_stack_of_other {s : State} {u : Transition} (hu : u ∈ s.transitions)
    (hkind : u.kind = .other) :
    u.next.stack.getLast? = some (if s.inDocString then .docString else .description) := by
  revert s u
  decide +kernel

namespace Reader

/-- The run with the parts that a reader has. -/
def asRun (r : Reader) : Run where
  limit := r.limit
  state := r.state
  matcher := r.matcher
  builder := r.builder
  scanner := ⟨[], 0⟩
  errors := r.errors
  failure := r.failure

/-- Accepting a token leads to the open rules of the next state. -/
theorem stack_accept {s : State} {u : Transition} (hu : u ∈ s.transitions)
    (h : .root :: r.builder.rules.reverse = s.stack) (hfine : (r.accept u t).failure = none) :
    .root :: (r.accept u t).builder.rules.reverse = u.next.stack := by
  obtain ⟨hcloses, hnext⟩ := State.stack_next hu
  have hreader : (r.asRun.accept u t).reader = r.accept u t :=
    (Run.accept_becomes r.asRun u t).reader
  have hlength : u.closes ≤ r.builder.rules.length := by
    have hlengths := congrArg List.length h
    simp only [State.stack, List.length_cons, List.length_reverse] at hlengths
    omega
  rw [← hreader] at hfine ⊢
  have hopen := (Run.openRules_accept (r := r.asRun) hfine hlength).1
  rw [hnext, ← h]
  exact hopen

/-- A reader whose matcher and builder agree with its state, and whose open description can be
told again. -/
structure Sound (R : Relocation) (r : Reader) : Prop where
  agrees : r.Agrees
  stack : .root :: r.builder.rules.reverse = r.state.stack
  suits : r.builder.Suits R

theorem start_sound (R : Relocation) (limit : Option Nat) {m : Matcher} (h : m.docString = none) :
    (start limit m).Sound R where
  agrees := by
    rw [Agrees, start, h]
    rfl
  stack := rfl
  suits := by
    intro scope hscope hrule
    rw [List.mem_singleton.mp hscope] at hrule
    cases hrule

/-- The reader `r'` holds what the reader `r` holds, told again. -/
structure Retold (R : Relocation) (r r' : Reader) : Prop where
  limit : r'.limit = r.limit
  state : r'.state = r.state
  matcher : r'.matcher = r.matcher.relocate R
  builder : r'.builder.clean = r.builder.clean.relocate R
  errors : r'.errors = r.errors.map (SyntaxError.retell R.retelling)
  failure : r'.failure = r.failure.map (Failure.retell R.retelling)

theorem Retold.addError (h : Retold R r r') (e : SyntaxError) :
    Retold R (r.addError e) (r'.addError (e.retell R.retelling)) := by
  have herrors : r'.errors ++ [e.retell R.retelling] =
      (r.errors ++ [e]).map (SyntaxError.retell R.retelling) := by
    rw [h.errors, List.map_append, List.map_singleton]
  rw [Reader.addError, Reader.addError, herrors, h.limit, List.length_map]
  split
  · exact ⟨rfl, h.state, h.matcher, h.builder, rfl, rfl⟩
  · exact ⟨rfl, h.state, h.matcher, h.builder, rfl, h.failure⟩

theorem suits_closeRule (h : r.builder.Suits R) : r.closeRule.builder.Suits R := by
  rw [closeRule]
  split
  · exact h
  · have hclose := h.close
    rcases hclosed : r.builder.close with ⟨b, _ | e⟩ <;> rw [hclosed] at hclose
    · exact hclose
    · simp only [Reader.addError]
      split <;> exact hclose

theorem suits_closeRules (h : r.builder.Suits R) (n : Nat) : (r.closeRules n).builder.Suits R := by
  induction n generalizing r with
  | zero => exact h
  | succ n ih => exact ih (suits_closeRule h)

theorem Retold.closeRule (h : Retold R r r') (hsuits : r.builder.Suits R) :
    Retold R r.closeRule r'.closeRule := by
  have hfailed : r'.failure.isSome = r.failure.isSome := by rw [h.failure, Option.isSome_map]
  rw [Reader.closeRule, Reader.closeRule, hfailed]
  split
  · exact h
  · have hclose := Builder.close_relocate (Builder.suits_clean.mpr hsuits)
    rw [← h.builder, Builder.close_clean, Builder.close_clean] at hclose
    obtain ⟨hbuilder, herror⟩ := Prod.mk.inj hclose
    generalize r.builder.close = closed at hbuilder herror ⊢
    generalize r'.builder.close = closed' at hbuilder herror ⊢
    rcases closed with ⟨b, _ | e⟩ <;> rcases closed' with ⟨b', _ | e'⟩ <;> cases herror
    · exact ⟨h.limit, h.state, h.matcher, hbuilder, h.errors, h.failure⟩
    · have hclosed : Retold R { r with builder := b } { r' with builder := b' } :=
        ⟨h.limit, h.state, h.matcher, hbuilder, h.errors, h.failure⟩
      exact hclosed.addError e

theorem Retold.closeRules (h : Retold R r r') (hsuits : r.builder.Suits R) (n : Nat) :
    Retold R (r.closeRules n) (r'.closeRules n) := by
  induction n generalizing r r' with
  | zero => exact h
  | succ n ih => exact ih (h.closeRule hsuits) (suits_closeRule hsuits)

theorem Retold.accept (h : Retold R r r') (hsuits : r.builder.Suits R) {u : Transition}
    {reading : Reading} (hreading : t.reading = some reading) {inside : Bool}
    (hother : (r.accept u t).failure = none → reading.kind = .other →
      inside = decide ((r.accept u t).builder.innermost = .docString)) :
    Retold R (r.accept u t) (r'.accept u (t.relocateRead R inside)) := by
  have hclosed := h.closeRules hsuits u.closes
  rw [Reader.accept] at hother ⊢
  rw [Reader.accept, hclosed.failure, Option.isSome_map]
  split
  · exact hclosed
  · next hfine =>
      rw [if_neg hfine] at hother
      have hopened : (u.opens.foldl Builder.start (r'.closeRules u.closes).builder).clean =
          (u.opens.foldl Builder.start (r.closeRules u.closes).builder).clean.relocate R := by
        rw [Builder.clean_foldl_start, Builder.clean_foldl_start, hclosed.builder,
          Builder.foldl_start_relocate]
      have hplace := hother (by simpa using hfine)
      simp only [Builder.innermost, Builder.rules_build] at hplace
      exact ⟨hclosed.limit, rfl, hclosed.matcher, Builder.build_relocate hopened hreading hplace,
        hclosed.errors, rfl⟩

theorem suits_accept (h : r.builder.Suits R) {u : Transition} {reading : Reading}
    (hreading : t.reading = some reading)
    (htext : (r.accept u t).failure = none → reading.kind = .other →
      (r.accept u t).builder.innermost = .description → R.Suits (reading.text.getD "")) :
    (r.accept u t).builder.Suits R := by
  rw [accept] at htext ⊢
  split
  · exact suits_closeRules h u.closes
  · next hfine =>
      rw [if_neg hfine] at htext
      have hplace := htext (by simpa using hfine)
      simp only [Builder.innermost, Builder.rules_build] at hplace
      exact ((suits_closeRules h u.closes).foldl_start u.opens).build hreading hplace

/-- Free text is taken in where the state says. -/
theorem innermost_accept {s : State} {u : Transition} (hu : u ∈ s.transitions)
    (hkind : u.kind = .other) (h : .root :: r.builder.rules.reverse = s.stack)
    (hfine : (r.accept u t).failure = none) :
    (r.accept u t).builder.innermost = if s.inDocString then .docString else .description := by
  have hlast := congrArg List.getLast? (stack_accept hu h hfine)
  rw [Builder.getLast?_rules, State.getLast?_stack_of_other hu hkind] at hlast
  exact Option.some.inj hlast

end Reader

/-- Outside doc strings a line of free text carries the line as it is written. -/
theorem Matcher.exists_line_of_matchAs_other {m next : Matcher} {read : Token} {reading : Reading}
    (hdoc : m.docString = none) (h : m.matchAs .other t = .ok (some (next, read)))
    (hreading : read.reading = some reading) : ∃ l ∈ t.line, reading.text = some l.raw := by
  cases hline : t.line with
  | none =>
      rw [matchAs_eof_eq_none hline (by decide)] at h
      cases h
  | some l =>
      rw [m.matchAs_other hline] at h
      obtain ⟨-, rfl⟩ := Prod.mk.inj (Option.some.inj (Except.ok.inj h))
      obtain rfl := Option.some.inj hreading
      exact ⟨l, rfl, congrArg some (freeText_of_docString_eq_none hdoc l)⟩

namespace Reader

theorem Sound.take (h : r.Sound R) (hline : ∀ l ∈ t.line, R.Suits l.raw)
    (hfine : (r.take t ts).failure = none) : (r.take t ts).Sound R := by
  rcases hchoice : r.choice t ts with e | _ | a
  · exact absurd hchoice (choice_ne_error hfine e)
  · obtain ⟨-, htake⟩ := take_refused hchoice hfine
    rw [htake]
    exact ⟨h.agrees, h.stack, h.suits⟩
  · obtain ⟨hfind, hmatch⟩ := Matcher.choose_eq_some hchoice
    obtain ⟨hmatcher, hstate⟩ := take_of_choice hchoice
    obtain ⟨reading, hreading, hkind⟩ := Matcher.exists_reading_of_matchAs hmatch
    have hu := List.mem_of_find?_eq_some hfind
    let chosen : Reader := { r with matcher := a.matcher }
    have htake : r.take t ts = chosen.accept a.transition a.token := by
      rw [Reader.take, hchoice]
    constructor
    · rw [Agrees, hmatcher, hstate hfine, Matcher.docString_of_matchAs hmatch,
        State.inDocString_next hu, h.agrees]
    · rw [hstate hfine, htake]
      exact stack_accept hu h.stack (htake ▸ hfine)
    · have hsuits : chosen.builder.Suits R := h.suits
      rw [htake]
      apply suits_accept hsuits hreading
      intro hfine hother hinnermost
      rw [hkind] at hother
      rw [innermost_accept (r := chosen) hu hother h.stack hfine] at hinnermost
      split at hinnermost
      · cases hinnermost
      · next hinside =>
          have hdoc := h.agrees.docString_eq_none (by simpa using hinside)
          rw [hother] at hmatch
          obtain ⟨l, hl, htext⟩ := Matcher.exists_line_of_matchAs_other hdoc hmatch hreading
          rw [htext]
          exact hline l hl

/-- Readers go on in step over a line and the line in its new place. -/
theorem Retold.take (h : Retold R r r') (hr : r.Sound R) (ht : t.reading = none)
    {ts' : List Token}
    (hahead : (r.matcher.relocate R).examplesAhead ts' = r.matcher.examplesAhead ts) :
    Retold R (r.take t ts) (r'.take (t.relocate R) ts') := by
  have hchoice' : r'.choice (t.relocate R) ts' = _ :=
    (congrArg₂ (fun m s => Matcher.choose m (t.relocate R) ts' (State.transitions s))
      h.matcher h.state).trans (r.matcher.choose_relocate R t hahead r.state.transitions)
  rw [Reader.take, Reader.take, hchoice', ← choice]
  rcases hchoice : r.choice t ts with e | _ | a
  · exact ⟨h.limit, h.state, h.matcher, h.builder, h.errors, rfl⟩
  · simp only [Except.map, Except.mapError, Option.map_none, reject_eq]
    rw [h.state, r.state.refusal_relocate R ht]
    exact h.addError _
  · obtain ⟨hfind, hmatch⟩ := Matcher.choose_eq_some hchoice
    obtain ⟨reading, hreading, hkind⟩ := Matcher.exists_reading_of_matchAs hmatch
    let chosen : Reader := { r with matcher := a.matcher }
    have hchosen : Retold R chosen { r' with matcher := a.matcher.relocate R } :=
      ⟨h.limit, h.state, rfl, h.builder, h.errors, h.failure⟩
    apply hchosen.accept hr.suits hreading
    intro hfine hother
    rw [hkind] at hother
    rw [innermost_accept (r := chosen) (List.mem_of_find?_eq_some hfind) hother hr.stack hfine,
      hr.agrees]
    cases r.state.inDocString <;> rfl

end Reader

/-! ### Lines in order -/

/-- A token that has not been read, and whose line can be told again. -/
structure Token.Suits (R : Relocation) (t : Token) : Prop where
  reading : t.reading = none
  line : ∀ l ∈ t.line, R.Suits l.raw

namespace Reader

/-- Readers go on in step over lines and the lines in their new places, in front of lines that
answer alike whether examples come next. -/
theorem Retold.readFront (h : Retold R r r') (hr : r.failure = none → r.Sound R)
    {front rest rest' : List Token} (hfront : ∀ t ∈ front, t.Suits R)
    (hahead : ∀ m : Matcher, (m.relocate R).examplesAhead rest' = m.examplesAhead rest) :
    Retold R (r.readFront front rest) (r'.readFront (front.map (Token.relocate R)) rest') ∧
      ((r.readFront front rest).failure = none → (r.readFront front rest).Sound R) := by
  induction front generalizing r r' with
  | nil => exact ⟨h, hr⟩
  | cons t front ih =>
      cases hfailure : r.failure with
      | some failure =>
          have hfailed : r.failure.isSome := by rw [hfailure]; rfl
          have hfailed' : r'.failure.isSome := by rw [h.failure, hfailure]; rfl
          rw [readFront_of_failure hfailed, readFront_of_failure hfailed']
          exact ⟨h, hr⟩
      | none =>
          have hfailure' : r'.failure = none := by rw [h.failure, hfailure]; rfl
          obtain ⟨ht, hfront⟩ := List.forall_mem_cons.mp hfront
          rw [List.map_cons, readFront_cons_of_failure hfailure,
            readFront_cons_of_failure hfailure']
          apply ih _ _ hfront
          · exact h.take (hr hfailure) ht.reading
              (r.matcher.examplesAhead_append_relocate R (hahead r.matcher) front)
          · exact (hr hfailure).take ht.line

theorem Retold.outcome (h : Retold R r r') : r'.outcome = R.retelling.outcome r.outcome := by
  have hresult : r'.builder.result? = r.builder.result?.map (Document.retell R.retelling) := by
    rw [← Builder.result?_clean, h.builder, Builder.result?_relocate, Builder.result?_clean]
  rw [Reader.outcome, Reader.outcome, h.failure, h.errors, hresult, List.isEmpty_map]
  cases r.failure with
  | some failure => rfl
  | none =>
      simp only [Option.map_none]
      split
      · cases r.builder.result? <;> rfl
      · rfl

/-- Closing a document that has been read in step comes to the same outcome, told again. -/
theorem Retold.outcome_closeRule (h : Retold R r r') (hr : r.failure = none → r.Sound R) :
    r'.closeRule.outcome = R.retelling.outcome r.closeRule.outcome := by
  cases hfailure : r.failure with
  | none => exact (h.closeRule (hr hfailure).suits).outcome
  | some failure =>
      have hclosed : r.closeRule = r := if_pos (by rw [hfailure]; rfl)
      have hclosed' : r'.closeRule = r' := if_pos (by rw [h.failure, hfailure]; rfl)
      rw [hclosed, hclosed']
      exact h.outcome

theorem start_retold (R : Relocation) (limit : Option Nat) {m : Matcher}
    (h : m.docString = none) : Retold R (start limit m) (start limit m) where
  limit := rfl
  state := rfl
  matcher := by
    obtain ⟨resolver, dialect, docString⟩ := m
    obtain rfl : docString = none := h
    rfl
  builder := rfl
  errors := rfl
  failure := rfl

end Reader
end Gherkin
