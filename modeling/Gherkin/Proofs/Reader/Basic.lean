import Gherkin.Parser

/-!
# Reading a list of tokens

A reader takes the tokens of a document one by one, as the scanner delivers
them.  It has no queue and no scanner: whether tags belong to examples is a
function of the tokens that follow them.  Everything a document says about its
lines can be proved about readers, because a run comes to the same outcome.
-/

namespace Gherkin

/-! ### Results that are there -/

section Results

variable {ε α : Type} {x : Except ε α}

theorem eq_ok_of_toOption {a : α} (h : x.toOption = some a) : x = .ok a := by
  cases x with
  | error e => cases h
  | ok b => rw [Option.some.inj h]

theorem exists_ok_of_isSome (h : x.toOption.isSome = true) : ∃ a, x = .ok a := by
  obtain ⟨a, ha⟩ := Option.isSome_iff_exists.mp h
  exact ⟨a, eq_ok_of_toOption ha⟩

/-- A result of which something can be told is there. -/
theorem exists_ok_of_any {p : α → Bool} (h : x.toOption.any p = true) :
    ∃ a, x = .ok a ∧ p a = true := by
  obtain ⟨a, ha, hp⟩ := (Option.any_eq_true p _).mp h
  exact ⟨a, eq_ok_of_toOption ha, hp⟩

end Results

/-! ### Readers -/

/-- How a transition accepts a token. -/
structure Acceptance where
  transition : Transition
  /-- The matcher behind the token. -/
  matcher : Matcher
  /-- The token as the transition reads it. -/
  token : Token

/-- How a token is accepted, if a choice among transitions has come to that. -/
def Acceptance.ofChoice : Except DialectError (Option Acceptance) → Option Acceptance
  | .ok acceptance => acceptance
  | .error _ => none

/-- The part of a run that does not depend on how tokens are fetched. -/
structure Reader where
  limit : Option Nat
  state : State := .start
  matcher : Matcher
  builder : Builder := {}
  errors : List SyntaxError := []
  failure : Option Failure := none

namespace Matcher

/-- Whether a token is of the given kind. -/
def isOf (m : Matcher) (kind : TokenKind) (t : Token) : Bool :=
  (m.content? kind t.line).isSome

/-- Whether a token may stand between tags and the title line of examples. -/
def isBetweenTags (m : Matcher) (t : Token) : Bool :=
  betweenTags.any fun kind => m.isOf kind t

/-- Whether a title line of examples comes before any token that is neither
blank, nor a comment, nor a tag line. -/
def examplesAhead (m : Matcher) : List Token → Bool
  | [] => false
  | t :: ts => m.isOf .examplesLine t || m.isBetweenTags t && m.examplesAhead ts

/-- The first of the given transitions that accepts a token, where `following`
lists the tokens behind it. -/
def choose (m : Matcher) (t : Token) (following : List Token) :
    List Transition → Except DialectError (Option Acceptance)
  | [] => .ok none
  | transition :: transitions =>
    match m.matchAs transition.kind t with
    | .ok none => m.choose t following transitions
    | .error e => .error e
    | .ok (some (next, read)) =>
      if transition.lookahead && !m.examplesAhead following then
        m.choose t following transitions
      else .ok (some ⟨transition, next, read⟩)

end Matcher

namespace Reader

/-- Collects an error, and gives up when there are more than the limit allows. -/
def addError (r : Reader) (e : SyntaxError) : Reader :=
  let errors := r.errors ++ [e]
  if r.limit.any fun limit => limit < errors.length then
    { r with errors := errors, failure := some (.parse errors) }
  else { r with errors := errors }

/-- Closes the innermost open rule. -/
def closeRule (r : Reader) : Reader :=
  if r.failure.isSome then r
  else
    match r.builder.close with
    | (builder, none) => { r with builder := builder }
    | (builder, some e) => { r with builder := builder }.addError e

/-- Closes a number of rules, from the innermost one outwards, until the reader
fails. -/
def closeRules : Nat → Reader → Reader
  | 0, r => r
  | n + 1, r => closeRules n r.closeRule

/-- Applies a transition to the token that it accepts. -/
def accept (r : Reader) (transition : Transition) (t : Token) : Reader :=
  let closed := closeRules transition.closes r
  if closed.failure.isSome then closed
  else
    let opened := transition.opens.foldl Builder.start closed.builder
    { closed with builder := opened.build t, state := transition.next }

/-- Skips a token that the state does not accept, with an error. -/
def reject (r : Reader) (t : Token) : Reader :=
  if t.isEof then r.addError ⟨.unexpectedEof r.state.expected, t.location⟩
  else
    r.addError
      ⟨.unexpectedToken r.state.expected t.value, ⟨t.number, t.lineIndent + 1⟩⟩

/-- How the current state accepts a token in front of the tokens `following`. -/
def choice (r : Reader) (t : Token) (following : List Token) :
    Except DialectError (Option Acceptance) :=
  r.matcher.choose t following r.state.transitions

/-- Takes a token in front of the tokens `following`. -/
def take (r : Reader) (t : Token) (following : List Token) : Reader :=
  match r.choice t following with
  | .error e => { r with failure := some (.dialect e) }
  | .ok none => r.reject t
  | .ok (some a) => { r with matcher := a.matcher }.accept a.transition a.token

/-- Takes tokens in order, until the reader fails. -/
def read (r : Reader) : List Token → Reader
  | [] => r
  | t :: ts => if r.failure.isSome then r else (r.take t ts).read ts

/-- The tokens that are taken: all of them, unless the reader fails before. -/
def taken (r : Reader) : List Token → List Token
  | [] => []
  | t :: ts => if r.failure.isSome then [] else t :: (r.take t ts).taken ts

/-- How tokens are accepted, in order; a token that is skipped is left out. -/
def acceptances (r : Reader) : List Token → List Acceptance
  | [] => []
  | t :: ts =>
    if r.failure.isSome then []
    else
      (Acceptance.ofChoice (r.choice t ts)).toList ++ (r.take t ts).acceptances ts

/-- What reading has come to: a document only if there were no errors. -/
def outcome (r : Reader) : Except Failure Document :=
  match r.failure with
  | some failure => .error failure
  | none =>
    if r.errors.isEmpty then .ok (r.builder.result?.getD {}) else .error (.parse r.errors)

/-- Takes all tokens and closes the document. -/
def complete (r : Reader) (ts : List Token) : Reader :=
  (r.read ts).closeRule

/-- A reader in front of the first token of a document. -/
def start (limit : Option Nat) (matcher : Matcher) : Reader :=
  { limit := limit, matcher := matcher, builder := ({} : Builder).start .document }

end Reader

namespace Source

/-- A source whose lines can all be read. -/
def ofLines (lines : List (List Char)) : Source :=
  lines.map .line

/-- The tokens of a source behind its first `line` lines, up to and including
its end.  A line that cannot be read has no token. -/
def tokens (line : Nat) : Source → List Token
  | [] => [Scanner.atEnd ⟨[], line⟩]
  | read :: source =>
    match Scanner.read ⟨read :: source, line⟩ with
    | (.ok t, scanner) => t :: tokens scanner.line source
    | (.error _, scanner) => tokens scanner.line source

end Source

namespace Parser

/-- The run of a parser over a source, unless its default language cannot be
used. -/
def run (p : Parser) (source : Source) : Except DialectError Run :=
  match Matcher.start p.resolver with
  | .error e => .error e
  | .ok matcher => Run.start p.limit matcher {} source

/-- The reader of a parser, unless its default language cannot be used. -/
def reader (p : Parser) : Except DialectError Reader :=
  match Matcher.start p.resolver with
  | .error e => .error e
  | .ok matcher =>
    match matcher.reset with
    | .error e => .error e
    | .ok reset => .ok (.start p.limit reset)

/-- A reader starts with a matcher that has been made and then reset. -/
theorem exists_reset_of_reader {p : Parser} {r : Reader} (h : p.reader = .ok r) :
    ∃ matcher reset, Matcher.start p.resolver = .ok matcher ∧ matcher.reset = .ok reset ∧
      r = .start p.limit reset := by
  rw [reader] at h
  split at h
  · cases h
  · next matcher hmatcher =>
      split at h
      · cases h
      · next reset hreset => exact ⟨matcher, reset, hmatcher, hreset, (Except.ok.inj h).symm⟩

/-- A parser starts outside doc strings. -/
theorem exists_start_outside {p : Parser} {r : Reader} (h : p.reader = .ok r) :
    ∃ m : Matcher, r = .start p.limit m ∧ m.docString = none := by
  obtain ⟨matcher, reset, -, hreset, rfl⟩ := exists_reset_of_reader h
  refine ⟨reset, rfl, ?_⟩
  rw [Matcher.reset, Matcher.start] at hreset
  split at hreset
  · rw [← Except.ok.inj hreset]
  · cases hreset

theorem exists_start_of_reader {p : Parser} {r : Reader} (h : p.reader = .ok r) :
    ∃ matcher, r = .start p.limit matcher := by
  obtain ⟨reset, hstart, -⟩ := exists_start_outside h
  exact ⟨reset, hstart⟩

/-- The outcome of reading a list of tokens. -/
def readTokens (p : Parser) (ts : List Token) : Except Failure Document :=
  match p.reader with
  | .error e => .error (.dialect e)
  | .ok r => (r.complete ts).outcome

end Parser
end Gherkin
