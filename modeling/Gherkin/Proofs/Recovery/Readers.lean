import Gherkin.Proofs.Reader.Drafts
import Gherkin.Proofs.Recovery.Tables

/-!
# Readers that have skipped lines

Two readers are alike when one stands where the other stands, with lines under
other numbers and without the errors of the lines that the other has skipped.
They stay alike over a token that both of them take, and over a line that one of
them skips and the other does not see.
-/

namespace Gherkin

namespace Reader

/-- There is room for more errors below the limit. -/
def HasRoom (r : Reader) (errors : List SyntaxError) : Prop :=
  ∀ limit ∈ r.limit, (r.errors ++ errors).length ≤ limit

/-- A reader that goes on, with no more errors than the limit allows. -/
structure Fine (r : Reader) : Prop where
  failure : r.failure = none
  room : r.HasRoom []

/-- The errors of closing a number of rules. -/
def closingErrors (r : Reader) (n : Nat) : List SyntaxError :=
  (r.builder.tables.take n).filterMap OpenTable.error?

theorem HasRoom.of_append {r : Reader} {errors more : List SyntaxError}
    (h : r.HasRoom (errors ++ more)) : r.HasRoom errors := by
  intro limit hlimit
  have hlength := h limit hlimit
  simp only [List.length_append] at hlength ⊢
  omega

/-- An error is collected as long as there is room for it. -/
theorem addError_of_room {r : Reader} {e : SyntaxError} (h : r.HasRoom [e]) :
    r.addError e = { r with errors := r.errors ++ [e] } := by
  refine if_neg fun hover => ?_
  obtain ⟨limit, hlimit, hless⟩ := (Option.any_eq_true _ _).mp hover
  have hroom := h limit hlimit
  have hless : limit < (r.errors ++ [e]).length := by simpa using hless
  omega

theorem room_of_addError {r : Reader} {e : SyntaxError} (h : (r.addError e).failure = none) :
    r.HasRoom [e] := by
  intro limit hlimit
  by_contra hover
  have hany : (r.limit.any fun limit => limit < (r.errors ++ [e]).length) = true :=
    (Option.any_eq_true _ _).mpr ⟨limit, hlimit, by simpa using hover⟩
  rw [addError, if_pos hany] at h
  cases h

/-- What closing a number of rules leaves of a reader. -/
structure Closes (r : Reader) (n : Nat) (closed : Reader) : Prop where
  limit : closed.limit = r.limit
  state : closed.state = r.state
  matcher : closed.matcher = r.matcher
  tables : closed.builder.tables = r.builder.tables.drop n
  errors : closed.errors = r.errors ++ r.closingErrors n
  failure : closed.failure = none

/-- Closing a rule goes well when there is room for its error, and only then. -/
theorem closeRule_closes {r : Reader} (hfine : r.Fine) :
    (r.HasRoom (r.closingErrors 1) → r.Closes 1 r.closeRule) ∧
      (r.closeRule.failure = none → r.HasRoom (r.closingErrors 1)) := by
  obtain ⟨htables, herror⟩ := r.builder.tables_close
  have hclosing : r.closingErrors 1 = r.builder.close.2.toList := by
    rw [herror, closingErrors]
    cases r.builder.tables with
    | nil => rfl
    | cons table outer => cases htable : table.error? <;> simp [htable]
  rw [← List.drop_one] at htables
  rw [closeRule, if_neg (by simp [hfine.failure])]
  generalize r.builder.close = closed at htables hclosing ⊢
  rcases closed with ⟨b, _ | e⟩
  · refine ⟨fun _ => ⟨rfl, rfl, rfl, htables, ?_, hfine.failure⟩, fun _ => ?_⟩
    · rw [hclosing, Option.toList_none, List.append_nil]
    · rw [hclosing]
      exact hfine.room
  · rw [hclosing]
    refine ⟨fun hroom => ?_, fun h => room_of_addError (r := { r with builder := b }) h⟩
    simp only
    rw [addError_of_room (r := { r with builder := b }) hroom]
    exact ⟨rfl, rfl, rfl, htables, by rw [hclosing]; rfl, hfine.failure⟩

theorem failure_of_closeRules {n : Nat} {r : Reader} (h : (r.closeRules n).failure = none) :
    r.failure = none := by
  induction n generalizing r with
  | zero => exact h
  | succ n ih => exact failure_of_closeRule (ih h)

/-- The errors of closing further rules come behind those of closing the first. -/
theorem closingErrors_succ (r : Reader) (n : Nat) :
    r.closingErrors (n + 1) = r.closingErrors 1 ++
      ((r.builder.tables.drop 1).take n).filterMap OpenTable.error? := by
  rw [closingErrors, closingErrors, ← List.filterMap_append, Nat.add_comm, List.take_add]

theorem Closes.hasRoom_iff {r closed : Reader} {n : Nat} (h : r.Closes n closed)
    (errors : List SyntaxError) :
    closed.HasRoom errors ↔ r.HasRoom (r.closingErrors n ++ errors) := by
  rw [HasRoom, HasRoom, h.limit, h.errors, List.append_assoc]

/-- Closing rules goes well when there is room for their errors, and only then. -/
theorem closeRules_closes {n : Nat} {r : Reader} (hfine : r.Fine) :
    (r.HasRoom (r.closingErrors n) → r.Closes n (r.closeRules n)) ∧
      ((r.closeRules n).failure = none → r.HasRoom (r.closingErrors n)) := by
  induction n generalizing r with
  | zero =>
      refine ⟨fun _ => ⟨rfl, rfl, rfl, rfl, ?_, hfine.failure⟩, fun _ => hfine.room⟩
      rw [closingErrors, List.take_zero, List.filterMap_nil, List.append_nil]
      rfl
  | succ n ih =>
      obtain ⟨hcloses, hroom⟩ := closeRule_closes hfine
      have hothers (h : r.Closes 1 r.closeRule) :=
        ih (r := r.closeRule) ⟨h.failure, by
          rw [h.hasRoom_iff, List.append_nil]
          exact hroom h.failure⟩
      rw [closeRules]
      constructor
      · intro hall
        have hsplit := r.closingErrors_succ n
        have hfirst := hcloses (HasRoom.of_append (hsplit ▸ hall))
        rw [← hfirst.tables] at hsplit
        rw [hsplit] at hall
        have hrest := (hothers hfirst).1 ((hfirst.hasRoom_iff _).mpr hall)
        refine ⟨hrest.limit.trans hfirst.limit, hrest.state.trans hfirst.state,
          hrest.matcher.trans hfirst.matcher, ?_, ?_, hrest.failure⟩
        · rw [hrest.tables, hfirst.tables, List.drop_drop, Nat.add_comm]
        · rw [hrest.errors, hfirst.errors, hsplit, List.append_assoc]
          rfl
      · intro hclosed
        have hfirst := hcloses (hroom (failure_of_closeRules hclosed))
        rw [closingErrors_succ, ← hfirst.tables]
        exact (hfirst.hasRoom_iff _).mp ((hothers hfirst).2 hclosed)

/-- What accepting a token makes of a reader. -/
structure Accepts (r : Reader) (transition : Transition) (t : Token) (accepted : Reader) :
    Prop where
  limit : accepted.limit = r.limit
  state : accepted.state = transition.next
  matcher : accepted.matcher = r.matcher
  tables : accepted.builder.tables = OpenTable.addRows t.rows
    ((transition.opens.map (⟨·, []⟩)).reverse ++ r.builder.tables.drop transition.closes)
  errors : accepted.errors = r.errors ++ r.closingErrors transition.closes
  failure : accepted.failure = none

/-- A token is accepted without failure when there is room for the errors of the
rules that it closes, and only then. -/
theorem accept_accepts {r : Reader} (hfine : r.Fine) (transition : Transition) (t : Token) :
    (r.HasRoom (r.closingErrors transition.closes) →
        r.Accepts transition t (r.accept transition t)) ∧
      ((r.accept transition t).failure = none →
        r.HasRoom (r.closingErrors transition.closes)) := by
  obtain ⟨hcloses, hroom⟩ := closeRules_closes (n := transition.closes) hfine
  rw [accept]
  by_cases hfailure : (r.closeRules transition.closes).failure.isSome
  · rw [if_pos hfailure]
    refine ⟨fun hall => ?_, hroom⟩
    rw [(hcloses hall).failure] at hfailure
    cases hfailure
  · have hclosed : (r.closeRules transition.closes).failure = none := by simpa using hfailure
    have h := hcloses (hroom hclosed)
    rw [if_neg hfailure]
    refine ⟨fun _ => ⟨h.limit, rfl, h.matcher, ?_, h.errors, hclosed⟩, fun _ => hroom hclosed⟩
    simp only
    rw [Builder.tables_build, Builder.tables_foldl_start, h.tables]

theorem read_cons_of_failure {r : Reader} (h : r.failure = none) (t : Token) (ts : List Token) :
    r.read (t :: ts) = (r.take t ts).read ts :=
  if_neg (by simp [h])

/-- The errors that taking a token adds, unless the reader fails. -/
def takenErrors (r : Reader) (t : Token) (following : List Token) : List SyntaxError :=
  match r.choice t following with
  | .error _ => []
  | .ok none => [r.state.refusal t]
  | .ok (some a) => r.closingErrors a.transition.closes

/-- A token has been taken without failure. -/
structure Takes (r : Reader) (t : Token) (following : List Token) : Prop where
  room : r.HasRoom (r.takenErrors t following)
  errors : (r.take t following).errors = r.errors ++ r.takenErrors t following
  limit : (r.take t following).limit = r.limit
  fine : (r.take t following).Fine

/-- A token that is refused leaves an error and nothing else, unless the reader fails. -/
theorem take_refused {r : Reader} {t : Token} {ts : List Token}
    (hchoice : r.choice t ts = .ok none) (h : (r.take t ts).failure = none) :
    r.HasRoom [r.state.refusal t] ∧
      r.take t ts = { r with errors := r.errors ++ [r.state.refusal t] } := by
  simp only [take, hchoice, reject_eq] at h ⊢
  have hroom := room_of_addError h
  exact ⟨hroom, addError_of_room hroom⟩

/-- A token is accepted behind its matcher, unless the reader fails. -/
theorem Fine.take_accepted {r : Reader} (hfine : r.Fine) {t : Token} {ts : List Token}
    {a : Acceptance} (hchoice : r.choice t ts = .ok (some a))
    (h : (r.take t ts).failure = none) :
    r.HasRoom (r.closingErrors a.transition.closes) ∧
      Accepts { r with matcher := a.matcher } a.transition a.token (r.take t ts) := by
  simp only [take, hchoice] at h ⊢
  obtain ⟨haccepts, hclosing⟩ := accept_accepts (r := { r with matcher := a.matcher })
    ⟨hfine.failure, hfine.room⟩ a.transition a.token
  have hroom := hclosing h
  exact ⟨hroom, haccepts hroom⟩

/-- A token that is taken without failure adds its errors, for which there is room. -/
theorem Fine.takes {r : Reader} (hfine : r.Fine) {t : Token} {ts : List Token}
    (h : (r.take t ts).failure = none) : r.Takes t ts := by
  suffices hmain : r.HasRoom (r.takenErrors t ts) ∧
      (r.take t ts).errors = r.errors ++ r.takenErrors t ts ∧ (r.take t ts).limit = r.limit by
    obtain ⟨hroom, herrors, hlimit⟩ := hmain
    refine ⟨hroom, herrors, hlimit, h, ?_⟩
    rw [HasRoom, hlimit, herrors, List.append_nil]
    exact hroom
  rw [takenErrors]
  rcases hchoice : r.choice t ts with e | _ | a
  · exact absurd hchoice (choice_ne_error h e)
  · obtain ⟨hroom, htake⟩ := take_refused hchoice h
    rw [htake]
    exact ⟨hroom, rfl, rfl⟩
  · obtain ⟨hroom, haccepts⟩ := hfine.take_accepted hchoice h
    exact ⟨hroom, haccepts.errors, haccepts.limit⟩

/-! ### Two readers -/

/-- The errors that are left when the errors of skipped lines are left out, at lines
with other numbers. -/
def remaining (f : Nat → Nat) (errors : List SyntaxError) : List SyntaxError :=
  (errors.filter fun e => !e.isUnexpectedToken).map (SyntaxError.renumber f)

/-- The second reader stands where the first one stands, with lines under other
numbers, and has not seen the lines that the first one has skipped. -/
structure Alike (f : Nat → Nat) (r r' : Reader) : Prop where
  limit : r'.limit = r.limit
  state : r'.state = r.state
  matcher : r'.matcher = r.matcher
  tables : r'.builder.tables = r.builder.tables.map (OpenTable.renumber f)
  errors : r'.errors = remaining f r.errors
  fine : r.Fine
  failure : r'.failure = none

variable {f : Nat → Nat} {r r' : Reader}

theorem remaining_append (errors more : List SyntaxError) :
    remaining f (errors ++ more) = remaining f errors ++ remaining f more := by
  simp [remaining]

theorem remaining_eq_map {errors : List SyntaxError}
    (h : ∀ e ∈ errors, e.isUnexpectedToken = false) :
    remaining f errors = errors.map (SyntaxError.renumber f) := by
  rw [remaining, List.filter_eq_self.mpr fun e he => by rw [h e he]; rfl]

theorem isUnexpectedToken_of_mem_closingErrors {n : Nat} {e : SyntaxError}
    (h : e ∈ r.closingErrors n) : e.isUnexpectedToken = false := by
  obtain ⟨table, -, htable⟩ := List.mem_filterMap.mp h
  exact OpenTable.isUnexpectedToken_of_error? htable

namespace Alike

theorem length_errors_le (h : r.Alike f r') : r'.errors.length ≤ r.errors.length := by
  rw [h.errors, remaining, List.length_map]
  exact List.length_filter_le _ _

theorem hasRoom (h : r.Alike f r') {errors : List SyntaxError} (hroom : r.HasRoom errors) :
    r'.HasRoom (errors.map (SyntaxError.renumber f)) := by
  intro limit hlimit
  rw [h.limit] at hlimit
  have hlength := hroom limit hlimit
  have hless := h.length_errors_le
  simp only [List.length_append, List.length_map] at hlength ⊢
  omega

theorem fine' (h : r.Alike f r') : r'.Fine :=
  ⟨h.failure, h.hasRoom h.fine.room⟩

theorem closingErrors (h : r.Alike f r') (n : Nat) :
    r'.closingErrors n = (r.closingErrors n).map (SyntaxError.renumber f) := by
  rw [Reader.closingErrors, Reader.closingErrors, h.tables, ← List.map_take, List.filterMap_map,
    List.map_filterMap]
  exact congrArg (fun g => List.filterMap g _) (funext fun table => table.error?_renumber f)

theorem closeRules (h : r.Alike f r') {n : Nat} (hroom : r.HasRoom (r.closingErrors n)) :
    (r.closeRules n).Alike f (r'.closeRules n) := by
  have hcloses := (closeRules_closes h.fine).1 hroom
  have hcloses' := (closeRules_closes (n := n) h.fine').1 <| by
    rw [h.closingErrors]
    exact h.hasRoom hroom
  refine ⟨?_, ?_, ?_, ?_, ?_, ⟨hcloses.failure, ?_⟩, hcloses'.failure⟩
  · rw [hcloses'.limit, hcloses.limit, h.limit]
  · rw [hcloses'.state, hcloses.state, h.state]
  · rw [hcloses'.matcher, hcloses.matcher, h.matcher]
  · rw [hcloses'.tables, hcloses.tables, h.tables, List.map_drop]
  · rw [hcloses'.errors, hcloses.errors, remaining_append, h.errors, h.closingErrors,
      remaining_eq_map fun _ => isUnexpectedToken_of_mem_closingErrors]
  · rw [hcloses.hasRoom_iff, List.append_nil]
    exact hroom

/-- Readers that accept the same line stay alike. -/
theorem accept (h : r.Alike f r') {transition : Transition} (t : Token)
    (hroom : r.HasRoom (r.closingErrors transition.closes)) :
    (r.accept transition t).Alike f (r'.accept transition (t.renumber f)) := by
  have haccepts := (accept_accepts h.fine transition t).1 hroom
  have haccepts' := (accept_accepts h.fine' transition (t.renumber f)).1 <| by
    rw [h.closingErrors]
    exact h.hasRoom hroom
  refine ⟨?_, ?_, ?_, ?_, ?_, ⟨haccepts.failure, ?_⟩, haccepts'.failure⟩
  · rw [haccepts'.limit, haccepts.limit, h.limit]
  · rw [haccepts'.state, haccepts.state]
  · rw [haccepts'.matcher, haccepts.matcher, h.matcher]
  · rw [haccepts'.tables, haccepts.tables, h.tables, t.rows_renumber, ← OpenTable.addRows_renumber]
    simp [OpenTable.renumber, Function.comp_def]
  · rw [haccepts'.errors, haccepts.errors, remaining_append, h.errors, h.closingErrors,
      remaining_eq_map fun _ => isUnexpectedToken_of_mem_closingErrors]
  · intro limit hlimit
    rw [haccepts.limit] at hlimit
    rw [haccepts.errors, List.append_nil]
    exact hroom limit hlimit

variable {t : Token} {ts ts' : List Token}

theorem take_of_accepted (h : r.Alike f r') {a : Acceptance}
    (hchoice : r.choice t ts = .ok (some a))
    (hchoice' : r'.choice (t.renumber f) ts' = .ok (some (a.renumber f)))
    (hroom : r.HasRoom (r.closingErrors a.transition.closes)) :
    (r.take t ts).Alike f (r'.take (t.renumber f) ts') := by
  have hbehind : Alike f { r with matcher := a.matcher } { r' with matcher := a.matcher } :=
    ⟨h.limit, h.state, rfl, h.tables, h.errors, ⟨h.fine.failure, h.fine.room⟩, h.failure⟩
  rw [take, take, hchoice, hchoice']
  exact hbehind.accept a.token hroom

/-- Readers that refuse the end of the source stay alike. -/
theorem take_of_refused (h : r.Alike f r') (hchoice : r.choice t ts = .ok none)
    (hchoice' : r'.choice (t.renumber f) ts' = .ok none) (heof : t.isEof = true)
    (hroom : r.HasRoom [r.state.refusal t]) :
    (r.take t ts).Alike f (r'.take (t.renumber f) ts') := by
  have hrefusal : [r.state.refusal t].map (SyntaxError.renumber f) =
      [r'.state.refusal (t.renumber f)] := by
    rw [h.state, State.refusal_renumber]
    rfl
  have hroom' : r'.HasRoom [r'.state.refusal (t.renumber f)] := by
    rw [← hrefusal]
    exact h.hasRoom hroom
  have hkept : remaining f [r.state.refusal t] =
      [r.state.refusal t].map (SyntaxError.renumber f) := by
    refine remaining_eq_map fun e he => ?_
    rw [List.mem_singleton.mp he, State.isUnexpectedToken_refusal, heof]
    rfl
  simp only [take, hchoice, hchoice', reject_eq]
  rw [addError_of_room hroom, addError_of_room hroom']
  refine ⟨h.limit, h.state, h.matcher, h.tables, ?_, ⟨h.fine.failure, ?_⟩, h.failure⟩
  · rw [remaining_append, h.errors, hkept, hrefusal]
  · intro limit hlimit
    rw [List.append_nil]
    exact hroom limit hlimit

/-- A reader that skips a line stays alike to one that does not see the line. -/
theorem take_of_skipped (h : r.Alike f r') (hchoice : r.choice t ts = .ok none)
    (hline : t.isEof = false) (hroom : r.HasRoom [r.state.refusal t]) :
    (r.take t ts).Alike f r' := by
  have hskipped : remaining f [r.state.refusal t] = [] := by
    simp [remaining, State.isUnexpectedToken_refusal, hline]
  simp only [take, hchoice, reject_eq]
  rw [addError_of_room hroom]
  refine ⟨h.limit, h.state, h.matcher, h.tables, ?_, ⟨h.fine.failure, ?_⟩, h.failure⟩
  · rw [remaining_append, h.errors, hskipped, List.append_nil]
  · intro limit hlimit
    rw [List.append_nil]
    exact hroom limit hlimit

end Alike

end Reader
end Gherkin
