import Gherkin.Builder
import Gherkin.Grammar
import Gherkin.Lookahead

/-!
# Reading a document

A run takes the tokens of a source one by one.  The state of the grammar decides what becomes of a
token: the first transition whose kind it is of closes and opens rules and hands the token to the
builder.  A token that no transition accepts is an error and is skipped, so that one run finds many
errors.  A run that has failed does nothing any more.
-/

namespace Gherkin

/-- The reading of one document. -/
structure Run where
  /-- The number of errors up to which the run goes on, if there is a limit. -/
  limit : Option Nat
  state : State := .start
  matcher : Matcher
  builder : Builder := {}
  scanner : Scanner
  /-- Lines, and perhaps the end of the source, that have been looked at ahead of their turn. -/
  queue : List Token := []
  /-- The end of the source has been taken. -/
  ended : Bool := false
  errors : List SyntaxError := []
  failure : Option Failure := none
  log : Array Event := #[]

namespace Run

/-- Records events. -/
def note (r : Run) (events : List Event) : Run :=
  { r with log := r.log ++ events }

/-- Stops the run for good. -/
def fail (r : Run) (failure : Failure) : Run :=
  { r with failure := some failure }

/-- Collects an error, and gives up when there are more errors than the limit allows. -/
def addError (r : Run) (e : SyntaxError) : Run :=
  let errors := r.errors ++ [e]
  let r := { r with errors := errors }.note [.error e]
  if r.limit.any fun limit => limit < errors.length then
    (r.note [.givenUp errors.length]).fail (.parse errors)
  else r

/-- Closes the innermost open rule. -/
def closeRule (r : Run) : Run :=
  if r.failure.isSome then r
  else
    match r.builder.close with
    | (builder, none) => { r with builder := builder }.note r.builder.closeEvents
    | (builder, some e) => ({ r with builder := builder }.note r.builder.closeEvents).addError e

/-- Closes a number of rules, from the innermost one outwards, until the run fails. -/
def closeRules : Nat → Run → Run
  | 0, r => r
  | n + 1, r => closeRules n r.closeRule

/-- Opens a rule inside the innermost open rule. -/
def openRule (r : Run) (rule : Rule) : Run :=
  { r with builder := r.builder.start rule }.note [.ruleStarted rule]

/-- Applies a transition to the token that it accepts. -/
def accept (r : Run) (transition : Transition) (t : Token) : Run :=
  let closed := closeRules transition.closes r
  if closed.failure.isSome then closed
  else
    let opened := transition.opens.foldl openRule closed
    { opened with builder := opened.builder.build t, state := transition.next }

/-- Skips a token that the state does not accept, with an error. -/
def reject (r : Run) (t : Token) : Run :=
  if t.isEof then r.addError ⟨.unexpectedEof r.state.expected, t.location⟩
  else
    r.addError
      ⟨.unexpectedToken r.state.expected t.value, ⟨t.number, t.lineIndent + 1⟩⟩

/--
Looks ahead for examples, first at the tokens in the queue and then at further lines.  There is no
answer when a line cannot be read.
-/
def lookAhead (r : Run) : Run × Option Bool :=
  let queued := r.matcher.lookThrough r.queue
  match queued.verdict with
  | some verdict => ({ r with queue := queued.tokens }.note queued.events, some verdict)
  | none =>
    let read := r.matcher.lookOn r.scanner.line r.scanner.source
    let looked :=
      { r with queue := queued.tokens ++ read.tokens, scanner := read.scanner }.note
        (queued.events ++ read.events)
    match read.error? with
    | some e => (looked.fail (.scan e), none)
    | none => (looked, read.verdict)

/--
Finds the first transition that accepts a token, and the token as that transition reads it.  There
is none when the token is to be skipped, and none when the run has failed.
-/
def choose (r : Run) (t : Token) : List Transition → Run × Option (Transition × Token)
  | [] => (r, none)
  | transition :: transitions =>
    match r.matcher.matchAs transition.kind t with
    | .ok none => r.choose t transitions
    | .error e => ((r.note (r.matcher.matchEvents transition.kind t)).fail (.dialect e), none)
    | .ok (some (matcher, read)) =>
      let matched := { r with matcher := matcher }.note (r.matcher.matchEvents transition.kind t)
      if transition.lookahead then
        match matched.lookAhead with
        | (looked, some true) => (looked, some (transition, read))
        | (looked, some false) => looked.choose read transitions
        | (looked, none) => (looked, none)
      else (matched, some (transition, read))

/-- Applies the transition of the current state that accepts a token, or skips the token. -/
def take (r : Run) (t : Token) : Run :=
  match r.choose t r.state.transitions with
  | (chosen, some (transition, read)) => chosen.accept transition read
  | (chosen, none) => if chosen.failure.isSome then chosen else chosen.reject t

/--
The next line or the end of the source, which may wait in the queue.  The run fails when the line
cannot be read.
-/
def next (r : Run) : Run × Option Token :=
  match r.queue with
  | t :: queue => ({ r with queue := queue }, some t)
  | [] =>
    match r.scanner.read with
    | (.ok t, scanner) => ({ r with scanner := scanner }, some t)
    | (.error e, scanner) => ({ r with scanner := scanner }.fail (.scan e), none)

/-- Takes the next line, or the end of the source, behind which there is nothing to take. -/
def step (r : Run) : Run :=
  if r.failure.isSome || r.ended then r
  else
    match r.next with
    | (r, some t) => { r.take t with ended := t.isEof }
    | (r, none) => r

/-- Takes a number of lines. -/
def steps : Nat → Run → Run
  | 0, r => r
  | n + 1, r => steps n r.step

/-- The number of lines that have not been taken. -/
def unread (r : Run) : Nat :=
  r.queue.length + r.scanner.source.length

/--
Takes all lines and the end of the source, each in one step, and closes the document.
-/
def complete (r : Run) : Run :=
  (steps (r.unread + 1) r).closeRule

/-- A run at the start of a source, with a matcher and a builder as they are when they are new. -/
def start (limit : Option Nat) (matcher : Matcher) (builder : Builder) (source : Source) :
    Except DialectError Run :=
  match matcher.reset with
  | .error e => .error e
  | .ok reset =>
    let events := matcher.resolver.events matcher.resolver.defaultLanguage
    let r : Run :=
      { limit := limit, matcher := reset, builder := builder.reset, scanner := ⟨source, 0⟩ }
    .ok ((r.note events).openRule .document)

/-- What the run has come to: a document only if there were no errors. -/
def outcome (r : Run) : Except Failure Document :=
  match r.failure with
  | some failure => .error failure
  | none => if r.errors.isEmpty then .ok (r.builder.result?.getD {}) else .error (.parse r.errors)

end Run
end Gherkin
