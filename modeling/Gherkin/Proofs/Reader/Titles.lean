import Gherkin.Proofs.Dialect.Titles
import Gherkin.Proofs.Reader.Pragmas

/-!
# Title lines

What becomes of a title line outside doc strings depends on its kind and on the
state.  A state that expects the kind accepts it as that kind, also where free
text is welcome.  A state that does not expect it takes it as free text of a
description, if it takes any, and otherwise refuses it, with an error that stays.
-/

namespace Gherkin

/-! ### The grammar -/

/-- The title lines that end the header of a block. -/
def Block.titles : Block → List TokenKind
  | .feature => [.backgroundLine, .scenarioLine, .scenarioOutlineLine]
  | .background | .scenario => [.scenarioLine, .scenarioOutlineLine]
  | .outline | .examples => [.examplesLine, .scenarioLine, .scenarioOutlineLine]

namespace State

end State

namespace TokenKind

end TokenKind

/-! ### Choices -/

namespace Matcher

variable {m : Matcher} {t : Token} {kind : TokenKind}

end Matcher

namespace Reader

/-- The matcher and the state of a reader know alike whether a doc string is open. -/
def Agrees (r : Reader) : Prop :=
  r.matcher.docString.isSome = r.state.inDocString

theorem Agrees.docString_eq_none {r : Reader} (h : r.Agrees) (hs : r.state.inDocString = false) :
    r.matcher.docString = none := by
  rw [← Option.not_isSome_iff_eq_none, h, hs]
  exact Bool.false_ne_true

/-- A property of the errors of a reader that further errors do not break. -/
structure Keeps (P : Reader → Prop) : Prop where
  frame : ∀ {r r' : Reader}, P r → r'.errors = r.errors → r'.failure = r.failure → P r'
  addError : ∀ {r : Reader} (e : SyntaxError), P r → P (r.addError e)
  dialect : ∀ {r : Reader} (e : DialectError), P r → P { r with failure := some (.dialect e) }

namespace Keeps

variable {P : Reader → Prop} {r : Reader}

theorem closeRule (hP : Keeps P) (h : P r) : P r.closeRule := by
  rw [Reader.closeRule]
  split
  · exact h
  · split
    · exact hP.frame h rfl rfl
    · exact hP.addError _ (hP.frame h rfl rfl)

theorem closeRules (hP : Keeps P) (n : Nat) (h : P r) : P (r.closeRules n) := by
  induction n generalizing r with
  | zero => exact h
  | succ n ih => exact ih (hP.closeRule h)

theorem take (hP : Keeps P) (t : Token) (ts : List Token) (h : P r) : P (r.take t ts) := by
  rw [Reader.take]
  split
  · exact hP.dialect _ h
  · rw [reject_eq]
    exact hP.addError _ h
  · next a _ =>
      have hclosed : P (Reader.closeRules a.transition.closes { r with matcher := a.matcher }) :=
        hP.closeRules _ (hP.frame h rfl rfl)
      rw [accept]
      split
      · exact hclosed
      · exact hP.frame hclosed rfl rfl

theorem read (hP : Keeps P) (ts : List Token) (h : P r) : P (r.read ts) := by
  induction ts generalizing r with
  | nil => exact h
  | cons t ts ih =>
      rw [Reader.read]
      split
      · exact h
      · exact ih (hP.take t ts h)

theorem complete (hP : Keeps P) (ts : List Token) (h : P r) : P (r.complete ts) :=
  hP.closeRule (hP.read ts h)

end Keeps

/-- An error has been collected, and is among the errors that a failure lists. -/
def Reports (e : SyntaxError) (r : Reader) : Prop :=
  e ∈ r.errors ∧ ∀ errors, r.failure = some (.parse errors) → e ∈ errors

/-- A collected error keeps a reader from any document.  It is among the errors that are reported,
unless a language cannot be used. -/
theorem Reports.outcome {e : SyntaxError} {r : Reader} (h : Reports e r) (hearly : r.FailsEarly) :
    (∃ errors, r.outcome = .error (.parse errors) ∧ e ∈ errors) ∨
      ∃ e', r.failure = some (.dialect e') ∧ r.outcome = .error (.dialect e') := by
  rw [Reader.outcome]
  cases hfailure : r.failure with
  | some failure =>
      cases failure with
      | scan e' => exact (hearly _ hfailure).elim
      | dialect e' => exact .inr ⟨e', rfl, rfl⟩
      | parse errors => exact .inl ⟨errors, rfl, h.2 errors hfailure⟩
  | none =>
      have hsome : r.errors.isEmpty = false := by
        rw [List.isEmpty_eq_false_iff]
        exact List.ne_nil_of_mem h.1
      exact .inl ⟨r.errors, by rw [hsome]; rfl, h.1⟩

/-- What a reader accepts behind the first tokens is among all that it accepts. -/
theorem mem_acceptances_of_choice {r : Reader} {front back : List Token} {t : Token}
    {a : Acceptance} (hfailure : (r.readFront front (t :: back)).failure = none)
    (h : (r.readFront front (t :: back)).choice t back = .ok (some a)) :
    a ∈ r.acceptances (front ++ t :: back) := by
  induction front generalizing r with
  | nil =>
      rw [List.nil_append, acceptances, if_neg (by simpa [readFront] using hfailure)]
      rw [readFront] at h
      rw [h]
      exact List.mem_append_left _ (List.mem_singleton_self _)
  | cons u front ih =>
      have hfine := failure_readFront hfailure
      rw [readFront_cons_of_failure hfine] at hfailure h
      rw [List.cons_append, acceptances, if_neg (by simp [hfine])]
      exact List.mem_append_right _ (ih hfailure h)

/-! ### The dialect behind the start of a document -/

end Reader
end Gherkin
