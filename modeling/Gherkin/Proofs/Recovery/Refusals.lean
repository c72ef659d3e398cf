import Gherkin.Proofs.Reader.Fronts
import Gherkin.Proofs.Recovery.Readers

/-!
# Lines that are skipped

A line that no transition of a state accepts is skipped, and the error that it
leaves names the state.  So the unexpected tokens among the errors of a reader
are its skipped lines, in order, each as the state in front of it refuses it.
-/

namespace Gherkin

/-- What a state accepts behind a look ahead it accepts without one as well. -/
theorem State.exists_transition_of_expected {s : State} {kind : TokenKind}
    (h : kind ∈ s.expected) : ∃ u ∈ s.transitions, u.kind = kind ∧ u.lookahead = false := by
  revert s kind
  decide

theorem State.line_refusal (s : State) (t : Token) : (s.refusal t).location.line = t.number := by
  rw [refusal]
  split
  · rfl
  · rfl

/-- A token that is refused is of none of the kinds that need no look ahead. -/
theorem Matcher.matchAs_of_choose_eq_none {m : Matcher} {t : Token} {following : List Token}
    {transitions : List Transition} (h : m.choose t following transitions = .ok none) :
    ∀ u ∈ transitions, u.lookahead = false → m.matchAs u.kind t = .ok none := by
  fun_induction m.choose t following transitions with
  | case1 => exact fun u hu => absurd hu List.not_mem_nil
  | case2 transition transitions hmatch ih =>
      intro u hu hlook
      rcases List.mem_cons.mp hu with rfl | hu
      · exact hmatch
      · exact ih h u hu hlook
  | case4 transition transitions next read hmatch hpassed ih =>
      intro u hu hlook
      rcases List.mem_cons.mp hu with rfl | hu
      · rw [hlook] at hpassed
        cases hpassed
      · exact ih h u hu hlook
  | case3 transition transitions | case5 transition transitions => cases h

namespace Reader

/-- A line is skipped when no transition accepts it. -/
def skips (r : Reader) (t : Token) (following : List Token) : Bool :=
  !t.isEof &&
    match r.choice t following with
    | .ok none => true
    | _ => false

/-- The lines that are skipped. -/
def skipped (r : Reader) : List Token → List Token
  | [] => []
  | t :: ts =>
    if r.skips t ts then t :: (r.take t ts).skipped ts else (r.take t ts).skipped ts

/-- The lines that are skipped, each with the reader in front of it. -/
def refusals (r : Reader) : List Token → List (Reader × Token)
  | [] => []
  | t :: ts => (if r.skips t ts then [(r, t)] else []) ++ (r.take t ts).refusals ts

variable {r : Reader} {t : Token} {ts : List Token}

theorem skips_iff : r.skips t ts = true ↔ t.isEof = false ∧ r.choice t ts = .ok none := by
  rw [skips, Bool.and_eq_true, Bool.not_eq_true']
  refine and_congr_right fun _ => ?_
  rcases r.choice t ts with e | _ | a <;> simp

theorem skips_eq_false_of_choice {a : Acceptance} (h : r.choice t ts = .ok (some a)) :
    r.skips t ts = false := by
  simp [skips, h]

theorem skipped_cons_of_skips (h : r.skips t ts = true) :
    r.skipped (t :: ts) = t :: (r.take t ts).skipped ts :=
  if_pos h

theorem skipped_cons_of_not_skips (h : r.skips t ts = false) :
    r.skipped (t :: ts) = (r.take t ts).skipped ts :=
  if_neg (by simp [h])

theorem skipped_sublist (r : Reader) (ts : List Token) : (r.skipped ts).Sublist ts := by
  induction ts generalizing r with
  | nil => exact List.Sublist.slnil
  | cons t ts ih =>
      rw [skipped]
      split
      · exact (ih _).cons_cons t
      · exact (ih _).cons t

theorem map_snd_refusals (r : Reader) (ts : List Token) :
    (r.refusals ts).map Prod.snd = r.skipped ts := by
  induction ts generalizing r with
  | nil => rfl
  | cons t ts ih =>
      rw [refusals, List.map_append, ih, skipped]
      by_cases hskips : r.skips t ts = true
      · rw [if_pos hskips, if_pos hskips]
        rfl
      · rw [if_neg hskips, if_neg hskips]
        rfl

/-- A token that is refused is of none of the kinds that the state expects. -/
theorem matchAs_of_refused (h : r.choice t ts = .ok none) :
    ∀ kind ∈ r.state.expected, r.matcher.matchAs kind t = .ok none := by
  intro kind hkind
  obtain ⟨u, hu, rfl, hlook⟩ := State.exists_transition_of_expected hkind
  exact Matcher.matchAs_of_choose_eq_none h u hu hlook

/-- A line that is skipped stands behind the tokens that the reader in front of it has
taken. -/
theorem exists_front_of_mem_refusals (h : (r.read ts).failure = none) {x : Reader × Token}
    (hx : x ∈ r.refusals ts) :
    ∃ front back, ts = front ++ x.2 :: back ∧ x.1 = r.readFront front (x.2 :: back) ∧
      x.1.choice x.2 back = .ok none := by
  induction ts generalizing r with
  | nil => exact absurd hx List.not_mem_nil
  | cons t ts ih =>
      have hfailure := failure_read h
      rw [read_cons_of_failure hfailure] at h
      rcases List.mem_append.mp hx with hx | hx
      · split at hx
        · next hskips =>
            obtain rfl := List.mem_singleton.mp hx
            exact ⟨[], ts, rfl, rfl, (skips_iff.mp hskips).2⟩
        · cases hx
      · obtain ⟨front, back, rfl, hfront, hchoice⟩ := ih h hx
        refine ⟨t :: front, back, rfl, ?_, hchoice⟩
        rw [readFront_cons_of_failure hfailure]
        exact hfront

/-! ### Lines that are not accepted -/

/-- What is accepted are the tokens that are read. -/
theorem exists_mem_of_mem_acceptances {a : Acceptance} (h : a ∈ r.acceptances ts) :
    ∃ t ∈ ts, a.token.number = t.number := by
  obtain ⟨front, t, back, rfl, hchoice⟩ := exists_front_of_mem_acceptances h
  exact ⟨t, by simp, number_of_choice hchoice⟩

/-- With increasing numbers, the lines that are skipped are those whose numbers are not
those of accepted tokens. -/
theorem skipped_eq_filter (h : (r.read ts).failure = none)
    (hnumbers : ts.Pairwise fun t u => t.number < u.number) :
    r.skipped ts = ts.filter fun t =>
      !t.isEof && decide (t.number ∉ (r.acceptances ts).map fun a => a.token.number) := by
  induction ts generalizing r with
  | nil => rfl
  | cons t ts ih =>
      have hfailure := failure_read h
      obtain ⟨hfirst, hothers⟩ := List.pairwise_cons.mp hnumbers
      rw [read_cons_of_failure hfailure] at h
      have hrest := ih h hothers
      have hnot : t.number ∉ ((r.take t ts).acceptances ts).map fun a => a.token.number := by
        intro hmem
        obtain ⟨a, ha, hnumber⟩ := List.mem_map.mp hmem
        obtain ⟨u, hu, hsame⟩ := exists_mem_of_mem_acceptances ha
        have hlt := hfirst u hu
        omega
      have haccepted : r.acceptances (t :: ts) =
          (Acceptance.ofChoice (r.choice t ts)).toList ++ (r.take t ts).acceptances ts :=
        if_neg (by simp [hfailure])
      rcases hchoice : r.choice t ts with e | _ | a
      · exact absurd hchoice (choice_ne_error (failure_read h) e)
      · rw [hchoice] at haccepted
        rw [haccepted, Acceptance.ofChoice, Option.toList_none, List.nil_append, List.filter_cons]
        cases heof : t.isEof with
        | true =>
            rw [skipped_cons_of_not_skips (by simp [skips, heof])]
            exact hrest
        | false =>
            rw [skipped_cons_of_skips (skips_iff.mpr ⟨heof, hchoice⟩), hrest,
              decide_eq_true hnot]
            rfl
      · have hnumber := number_of_choice hchoice
        rw [hchoice] at haccepted
        rw [haccepted, skipped_cons_of_not_skips (skips_eq_false_of_choice hchoice), hrest,
          List.filter_cons_of_neg (by simp [Acceptance.ofChoice, hnumber])]
        apply List.filter_congr
        intro u hu
        have hne : u.number ≠ t.number := (hfirst u hu).ne'
        simp [Acceptance.ofChoice, hnumber, hne]

/-! ### The errors of skipped lines -/

theorem filter_closingErrors (r : Reader) (n : Nat) :
    (r.closingErrors n).filter SyntaxError.isUnexpectedToken = [] := by
  rw [List.filter_eq_nil_iff]
  intro e he
  rw [isUnexpectedToken_of_mem_closingErrors he]
  exact Bool.false_ne_true

theorem filter_takenErrors (r : Reader) (t : Token) (ts : List Token) :
    (r.takenErrors t ts).filter SyntaxError.isUnexpectedToken =
      if r.skips t ts then [r.state.refusal t] else [] := by
  rw [takenErrors, skips]
  rcases r.choice t ts with e | _ | a
  · simp
  · cases heof : t.isEof with
    | true => simp [State.isUnexpectedToken_refusal, heof]
    | false => simp [State.isUnexpectedToken_refusal, heof]
  · simp [filter_closingErrors]

theorem read_fine (hfine : r.Fine) (h : (r.read ts).failure = none) : (r.read ts).Fine := by
  induction ts generalizing r with
  | nil => exact hfine
  | cons t ts ih =>
      rw [read_cons_of_failure hfine.failure] at h ⊢
      exact ih (hfine.takes (failure_read h)).fine h

/-- The unexpected tokens are the lines that are skipped, as the states refuse them. -/
theorem filter_errors_read (hfine : r.Fine) (h : (r.read ts).failure = none) :
    (r.read ts).errors.filter SyntaxError.isUnexpectedToken =
      r.errors.filter SyntaxError.isUnexpectedToken ++
        (r.refusals ts).map fun x => x.1.state.refusal x.2 := by
  induction ts generalizing r with
  | nil => exact (List.append_nil _).symm
  | cons t ts ih =>
      rw [read_cons_of_failure hfine.failure] at h ⊢
      have htakes := hfine.takes (failure_read h)
      rw [ih htakes.fine h, htakes.errors, List.filter_append, filter_takenErrors, refusals,
        List.map_append, List.append_assoc]
      by_cases hskips : r.skips t ts = true
      · rw [if_pos hskips, if_pos hskips]
        rfl
      · rw [if_neg hskips, if_neg hskips]
        rfl

/-- Closing the document adds the error of an uneven table, if it is still open. -/
theorem errors_complete (hfine : r.Fine) (h : (r.complete ts).failure = none) :
    (r.complete ts).errors = (r.read ts).errors ++ (r.read ts).closingErrors 1 := by
  have hreadFine := read_fine hfine (failure_of_closeRule h)
  have hcloses := closeRules_closes (n := 1) hreadFine
  exact (hcloses.1 (hcloses.2 h)).errors

theorem filter_errors_complete (hfine : r.Fine) (h : (r.complete ts).failure = none) :
    (r.complete ts).errors.filter SyntaxError.isUnexpectedToken =
      r.errors.filter SyntaxError.isUnexpectedToken ++
        (r.refusals ts).map fun x => x.1.state.refusal x.2 := by
  rw [errors_complete hfine h, List.filter_append, filter_closingErrors, List.append_nil,
    filter_errors_read hfine (failure_of_closeRule h)]

/-- The numbers of the lines that are unexpected tokens. -/
def unexpectedLines (errors : List SyntaxError) : List Nat :=
  (errors.filter SyntaxError.isUnexpectedToken).map fun e => e.location.line

theorem unexpectedLines_append (errors more : List SyntaxError) :
    unexpectedLines (errors ++ more) = unexpectedLines errors ++ unexpectedLines more := by
  simp [unexpectedLines]

theorem errors_addError (r : Reader) (e : SyntaxError) :
    (r.addError e).errors = r.errors ++ [e] := by
  rw [addError]
  split <;> rfl

theorem unexpectedLines_closeRule (r : Reader) :
    unexpectedLines r.closeRule.errors = unexpectedLines r.errors := by
  have herror := r.builder.tables_close.2
  rw [closeRule]
  split
  · rfl
  · generalize r.builder.close = closed at herror ⊢
    rcases closed with ⟨b, _ | e⟩
    · rfl
    · obtain ⟨table, -, htable⟩ := Option.bind_eq_some_iff.mp herror.symm
      have hexpected : unexpectedLines [e] = [] := by
        simp [unexpectedLines, OpenTable.isUnexpectedToken_of_error? htable]
      simp only
      rw [errors_addError, unexpectedLines_append, hexpected, List.append_nil]

theorem unexpectedLines_closeRules (n : Nat) (r : Reader) :
    unexpectedLines (r.closeRules n).errors = unexpectedLines r.errors := by
  induction n generalizing r with
  | zero => rfl
  | succ n ih => rw [closeRules, ih, unexpectedLines_closeRule]

/-- A token that is accepted is not among the unexpected ones, also when the reader fails
with it. -/
theorem unexpectedLines_take_of_choice {a : Acceptance} (h : r.choice t ts = .ok (some a)) :
    unexpectedLines (r.take t ts).errors = unexpectedLines r.errors := by
  have hclosed := unexpectedLines_closeRules a.transition.closes { r with matcher := a.matcher }
  rw [take, h]
  simp only [accept]
  split
  · exact hclosed
  · exact hclosed

/-- The lines that are skipped are those that are unexpected tokens. -/
theorem unexpectedLines_complete (hfine : r.Fine) (h : (r.complete ts).failure = none) :
    unexpectedLines (r.complete ts).errors =
      unexpectedLines r.errors ++ (r.skipped ts).map Token.number := by
  rw [unexpectedLines, filter_errors_complete hfine h, List.map_append, List.map_map,
    ← map_snd_refusals, List.map_map, unexpectedLines]
  congr 1
  apply List.map_congr_left
  intro x _
  exact x.1.state.line_refusal x.2

end Reader

end Gherkin
