import Gherkin.Proofs.Builder.Uneven
import Gherkin.Proofs.Realisation.Choices

/-!
# Lines under other numbers

Deleting a line or inserting one changes the numbers of the lines behind it.
The number of a line goes into the places of rows and errors and into nothing
else: how a token is read and which transition accepts it do not depend on it.
-/

namespace Gherkin

variable (f : Nat → Nat)

/-- The same column in the line with another number. -/
def Location.renumber (l : Location) : Location :=
  { l with line := f l.line }

/-- The cell in a line with another number. -/
def TableCell.renumber (c : TableCell) : TableCell :=
  { c with location := c.location.renumber f }

/-- The row in a line with another number. -/
def TableRow.renumber (r : TableRow) : TableRow where
  location := r.location.renumber f
  cells := r.cells.map (TableCell.renumber f)

/-- The error at a line with another number. -/
def SyntaxError.renumber (e : SyntaxError) : SyntaxError :=
  { e with location := e.location.renumber f }

/-- The token of the same line under another number. -/
def Token.renumber (t : Token) : Token :=
  { t with number := f t.number }

/-- The acceptance of the same line under another number. -/
def Acceptance.renumber (a : Acceptance) : Acceptance :=
  { a with token := a.token.renumber f }

/-- The error of an uneven table moves with the rows of the table. -/
theorem unevenError?_map_renumber (rows : List TableRow) :
    unevenError? (rows.map (TableRow.renumber f)) =
      (unevenError? rows).map (SyntaxError.renumber f) :=
  unevenError?_map (fun _ => List.length_map _) (fun _ => rfl) rows

/-- An error says that a line is of none of the expected kinds. -/
def SyntaxError.isUnexpectedToken (e : SyntaxError) : Bool :=
  match e.fault with
  | .unexpectedToken .. => true
  | .unexpectedEof _ | .unevenTable .. => false

theorem isUnexpectedToken_of_unevenError? {rows : List TableRow} {e : SyntaxError}
    (h : unevenError? rows = some e) : e.isUnexpectedToken = false := by
  cases rows with
  | nil => cases h
  | cons first rows =>
      obtain ⟨row, -, rfl⟩ := Option.map_eq_some_iff.mp h
      rfl

namespace Token

@[simp] theorem line_renumber (t : Token) : (t.renumber f).line = t.line := rfl

@[simp] theorem number_renumber (t : Token) : (t.renumber f).number = f t.number := rfl

@[simp] theorem reading_renumber (t : Token) : (t.renumber f).reading = t.reading := rfl

@[simp] theorem isEof_renumber (t : Token) : (t.renumber f).isEof = t.isEof := rfl

end Token

/-- The error with which a state refuses a token. -/
def State.refusal (s : State) (t : Token) : SyntaxError :=
  if t.isEof then ⟨.unexpectedEof s.expected, t.location⟩
  else ⟨.unexpectedToken s.expected t.value, ⟨t.number, t.lineIndent + 1⟩⟩

/-- A line is refused at its first character that is not blank. -/
theorem State.refusal_of_line (s : State) {t : Token} (h : t.isEof = false) :
    s.refusal t = ⟨.unexpectedToken s.expected t.value, ⟨t.number, t.lineIndent + 1⟩⟩ := by
  rw [refusal, h]
  rfl

theorem State.refusal_renumber (s : State) (t : Token) :
    s.refusal (t.renumber f) = (s.refusal t).renumber f := by
  rw [refusal, refusal, Token.isEof_renumber]
  split <;> rfl

/-- Only lines are unexpected tokens; the end of the source has an error of its own. -/
theorem State.isUnexpectedToken_refusal (s : State) (t : Token) :
    (s.refusal t).isUnexpectedToken = !t.isEof := by
  rw [refusal]
  cases h : t.isEof with
  | true => rfl
  | false => rfl

theorem Reader.reject_eq (r : Reader) (t : Token) :
    r.reject t = r.addError (r.state.refusal t) := by
  rw [reject, State.refusal]
  split <;> rfl

/-- Whether and as what a language is resolved does not depend on the place that
asks for it. -/
theorem Resolver.toOption_resolve (r : Resolver) (language : String) (l l' : Location) :
    (r.resolve language l).toOption = (r.resolve language l').toOption := by
  simp only [resolve]
  split <;> rfl

namespace Matcher

variable (m : Matcher)

theorem toOption_after (kind : TokenKind) (t : Token) (content : Content) :
    (m.after kind (t.renumber f) content).toOption = (m.after kind t content).toOption := by
  cases kind with
  | language =>
      let place : Location := ⟨(t.renumber f).number, (t.renumber f).lineIndent + 1⟩
      have hresolve := m.resolver.toOption_resolve (content.text.getD "")
        place ⟨t.number, t.lineIndent + 1⟩
      rw [after, after]
      generalize m.resolver.resolve (content.text.getD "") place = renumbered at hresolve ⊢
      generalize m.resolver.resolve (content.text.getD "") ⟨t.number, t.lineIndent + 1⟩ =
        resolved at hresolve ⊢
      cases renumbered <;> cases resolved <;> cases hresolve <;> rfl
  | _ => rfl

/-- A token is read in the same way under another number. -/
theorem toOption_matchAs (kind : TokenKind) (t : Token) :
    (m.matchAs kind (t.renumber f)).toOption =
      (m.matchAs kind t).toOption.map (Option.map (Prod.map id (Token.renumber f))) := by
  rw [matchAs, matchAs, Token.line_renumber]
  cases m.content? kind t.line with
  | none => rfl
  | some content =>
      have hafter := m.toOption_after f kind t content
      simp only
      generalize m.after kind (t.renumber f) content = renumbered at hafter ⊢
      generalize m.after kind t content = behind at hafter ⊢
      cases renumbered <;> cases behind <;> cases hafter <;> rfl

@[simp] theorem isOf_renumber (kind : TokenKind) (t : Token) :
    m.isOf kind (t.renumber f) = m.isOf kind t := rfl

@[simp] theorem isBetweenTags_renumber (t : Token) :
    m.isBetweenTags (t.renumber f) = m.isBetweenTags t := rfl

theorem examplesAhead_map_renumber (ts : List Token) :
    m.examplesAhead (ts.map (Token.renumber f)) = m.examplesAhead ts := by
  induction ts with
  | nil => rfl
  | cons t ts ih =>
      rw [List.map_cons, examplesAhead, examplesAhead, ih, isOf_renumber,
        isBetweenTags_renumber]

/-- The same transition accepts a token under another number and in front of other
tokens, as long as a tag line sees examples ahead in both cases or in neither. -/
theorem toOption_choose {t : Token} {following following' : List Token}
    {transitions : List Transition}
    (hlook : ∀ transition ∈ transitions, transition.lookahead →
      m.isOf transition.kind t = true →
        m.examplesAhead following' = m.examplesAhead following) :
    (m.choose (t.renumber f) following' transitions).toOption =
      (m.choose t following transitions).toOption.map
        (Option.map (Acceptance.renumber f)) := by
  induction transitions with
  | nil => rfl
  | cons transition transitions ih =>
      have hmatch := m.toOption_matchAs f transition.kind t
      have hothers := ih fun u hu => hlook u (List.mem_cons_of_mem _ hu)
      have hfirst := hlook transition List.mem_cons_self
      rw [choose, choose]
      cases hof : m.isOf transition.kind t with
      | false =>
          rw [matchAs_of_isOf_eq_false hof,
            matchAs_of_isOf_eq_false (t := t.renumber f) (by rw [isOf_renumber, hof])]
          exact hothers
      | true =>
          generalize m.matchAs transition.kind (t.renumber f) = renumbered at hmatch ⊢
          generalize m.matchAs transition.kind t = matched at hmatch ⊢
          rcases matched with e | _ | ⟨next, read⟩
          · cases renumbered <;> cases hmatch
            rfl
          · cases renumbered <;> cases hmatch
            exact hothers
          · cases renumbered <;> cases hmatch
            have hahead : (transition.lookahead && !m.examplesAhead following') =
                (transition.lookahead && !m.examplesAhead following) := by
              cases hlooking : transition.lookahead with
              | false => rfl
              | true => rw [hfirst hlooking hof]
            simp only [Option.map_some, Prod.map_apply, id_eq, hahead]
            split
            · exact hothers
            · rfl

end Matcher
end Gherkin
