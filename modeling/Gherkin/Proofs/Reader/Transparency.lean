import Gherkin.Proofs.Reader.Waiting

/-!
# Runs and readers agree

The queue of a run is transparent.  On a source whose lines can all be read, a
run takes exactly the tokens of the source in order and comes to the outcome of
the reader that walks over these tokens, none of which has been read before.
-/

namespace Gherkin

namespace Run

/-- What a run has come to, without its queue, its scanner and its log. -/
def reader (r : Run) : Reader :=
  ⟨r.limit, r.state, r.matcher, r.builder, r.errors, r.failure⟩

/-- A run takes tokens until it has failed or taken the end of the source. -/
def isOver (r : Run) : Bool :=
  r.failure.isSome || r.ended

theorem failure_of_isOver_eq_false {r : Run} (h : r.isOver = false) :
    r.failure = none ∧ r.ended = false := by
  simpa [isOver] using h

/-- The tokens that a number of steps take. -/
def taken : Nat → Run → List Token
  | 0, _ => []
  | n + 1, r => if r.isOver then [] else r.next.2.toList ++ taken n r.step

/-- How a token is accepted, if it is. -/
def acceptance? (r : Run) (t : Token) : Option Acceptance :=
  match r.choose t r.state.transitions with
  | (_, none) => none
  | (chosen, some (transition, read)) => some ⟨transition, chosen.matcher, read⟩

/-- How a number of steps accept tokens, in order; a token that is skipped is
left out. -/
def acceptances : Nat → Run → List Acceptance
  | 0, _ => []
  | n + 1, r =>
    if r.isOver then []
    else (r.next.2.bind r.next.1.acceptance?).toList ++ acceptances n r.step

/-- The tokens in the queue and the scanner are the given ones, apart from
readings. -/
def Awaits (r : Run) (ts : List Token) : Prop :=
  Gherkin.Awaits r.queue r.scanner ts

/-- A run has become what the reader says, while its queue and its scanner have
stayed the same. -/
structure Becomes (r : Run) (reader : Reader) (r' : Run) : Prop where
  reader : r'.reader = reader
  queue : r'.queue = r.queue
  scanner : r'.scanner = r.scanner

theorem Becomes.trans {r r' r'' : Run} {reader reader' : Reader}
    (h : r.Becomes reader r') (h' : r'.Becomes reader' r'') : r.Becomes reader' r'' :=
  ⟨h'.reader, h'.queue.trans h.queue, h'.scanner.trans h.scanner⟩

theorem Becomes.awaits {r r' : Run} {reader : Reader} {ts : List Token}
    (h : r.Becomes reader r') (hr : r.Awaits ts) : r'.Awaits ts := by
  rw [Awaits, h.queue, h.scanner]
  exact hr

/-- Errors are collected as the reader collects them. -/
theorem addError_becomes (r : Run) (e : SyntaxError) :
    r.Becomes (r.reader.addError e) (r.addError e) := by
  let errors := r.errors ++ [e]
  let noted := { r with errors := errors }.note [.error e]
  by_cases h : r.limit.any fun limit => limit < errors.length
  · have hreader : r.reader.addError e =
        { r.reader with errors := errors, failure := some (.parse errors) } :=
      if_pos h
    have hrun : r.addError e =
        (noted.note [.givenUp errors.length]).fail (.parse errors) := if_pos h
    rw [hreader, hrun]
    exact ⟨rfl, rfl, rfl⟩
  · have hreader : r.reader.addError e = { r.reader with errors := errors } := if_neg h
    have hrun : r.addError e = noted := if_neg h
    rw [hreader, hrun]
    exact ⟨rfl, rfl, rfl⟩

theorem closeRule_becomes (r : Run) : r.Becomes r.reader.closeRule r.closeRule := by
  by_cases hfailure : r.failure.isSome
  · have hreader : r.reader.closeRule = r.reader := if_pos hfailure
    rw [hreader, closeRule, if_pos hfailure]
    exact ⟨rfl, rfl, rfl⟩
  · have hnone : ¬ r.reader.failure.isSome := hfailure
    have hbuilder : r.reader.builder = r.builder := rfl
    rw [Reader.closeRule, closeRule, if_neg hnone, if_neg hfailure, hbuilder]
    rcases r.builder.close with ⟨builder, _ | e⟩
    · exact ⟨rfl, rfl, rfl⟩
    · let closed := { r with builder := builder }.note r.builder.closeEvents
      have hclosed : r.Becomes { r.reader with builder := builder } closed :=
        ⟨rfl, rfl, rfl⟩
      exact hclosed.trans (addError_becomes closed e)

theorem closeRules_becomes (n : Nat) (r : Run) :
    r.Becomes (r.reader.closeRules n) (closeRules n r) := by
  induction n generalizing r with
  | zero => exact ⟨rfl, rfl, rfl⟩
  | succ n ih =>
      have hfirst := closeRule_becomes r
      have hothers := ih r.closeRule
      rw [hfirst.reader] at hothers
      exact hfirst.trans hothers

theorem openRules_becomes (rules : List Rule) (r : Run) :
    r.Becomes { r.reader with builder := rules.foldl Builder.start r.builder }
      (rules.foldl openRule r) := by
  induction rules generalizing r with
  | nil => exact ⟨rfl, rfl, rfl⟩
  | cons rule rules ih =>
      have hfirst : r.Becomes { r.reader with builder := r.builder.start rule }
          (r.openRule rule) := ⟨rfl, rfl, rfl⟩
      exact hfirst.trans (ih (r.openRule rule))

theorem accept_becomes (r : Run) (transition : Transition) (t : Token) :
    r.Becomes (r.reader.accept transition t) (r.accept transition t) := by
  have hclosed := closeRules_becomes transition.closes r
  rw [accept, Reader.accept, ← hclosed.reader]
  let closed := closeRules transition.closes r
  by_cases hfailure : closed.failure.isSome
  · have hreader : closed.reader.failure.isSome := hfailure
    simp only [closed] at hfailure hreader
    rw [if_pos hfailure, if_pos hreader]
    exact ⟨rfl, hclosed.queue, hclosed.scanner⟩
  · have hreader : ¬closed.reader.failure.isSome := hfailure
    simp only [closed] at hfailure hreader
    rw [if_neg hfailure, if_neg hreader]
    have hopened := openRules_becomes transition.opens closed
    refine ⟨?_, hopened.queue.trans hclosed.queue, hopened.scanner.trans hclosed.scanner⟩
    have hfields := hopened.reader
    simp only [reader, closed, Reader.mk.injEq] at hfields ⊢
    obtain ⟨hlimit, -, hmatcher, hbuilder, herrors, hfailed⟩ := hfields
    exact ⟨hlimit, trivial, hmatcher, by rw [hbuilder], herrors, hfailed⟩

theorem reject_becomes (r : Run) (t : Token) :
    r.Becomes (r.reader.reject t) (r.reject t) := by
  rw [reject, Reader.reject]
  split
  · exact addError_becomes _ _
  · exact addError_becomes _ _

/-! ### Choosing a transition -/

/-- A look ahead answers as the tokens that wait do. -/
theorem lookAhead_spec {r : Run} {ts : List Token} (h : r.Awaits ts) :
    r.lookAhead.2 = some (r.matcher.examplesAhead ts) ∧
      r.lookAhead.1.reader = r.reader ∧ r.lookAhead.1.Awaits ts := by
  rw [lookAhead]
  rcases Gherkin.Awaits.lookThrough r.matcher h with
    ⟨hdecided, hwait⟩ | ⟨hopen, hreadable, hsame, hwait⟩
  · rw [hdecided]
    exact ⟨rfl, rfl, hwait⟩
  · obtain ⟨herror, hverdict, hmore⟩ := r.matcher.lookOn_spec hreadable r.scanner.line
    simp only [hopen, herror, hverdict, hsame]
    exact ⟨trivial, rfl, hwait _ _ hmore⟩

/-- Only tag lines need a look ahead. -/
theorem kind_eq_tagLine_of_lookahead {s : State} {transition : Transition}
    (h : transition ∈ s.transitions) (hlook : transition.lookahead) :
    transition.kind = .tagLine := by
  revert s transition
  decide

/-- The reader behind a choice among transitions. -/
def readerBehind (r : Run) : Except DialectError (Option Acceptance) → Reader
  | .error e => { r.reader with failure := some (.dialect e) }
  | .ok none => r.reader
  | .ok (some a) => { r.reader with matcher := a.matcher }

/-- A run has chosen a transition as the given choice says. -/
structure ChoosesAs (r : Run) (ts : List Token)
    (choice : Except DialectError (Option Acceptance))
    (chosen : Run × Option (Transition × Token)) : Prop where
  awaits : chosen.1.Awaits ts
  reader : chosen.1.reader = r.readerBehind choice
  accepted : chosen.2 =
    (Acceptance.ofChoice choice).map fun a => (a.transition, a.token)

theorem choose_spec {ts : List Token} {transitions : List Transition}
    {r : Run} {t : Token}
    (htags : ∀ transition ∈ transitions,
      transition.lookahead → transition.kind = .tagLine)
    (h : r.Awaits ts) :
    r.ChoosesAs ts (r.matcher.choose t.fresh ts transitions) (r.choose t transitions) := by
  induction transitions generalizing r t with
  | nil => exact ⟨h, rfl, rfl⟩
  | cons transition transitions ih =>
      have hothers : ∀ transition ∈ transitions,
          transition.lookahead → transition.kind = .tagLine :=
        fun transition htransition => htags transition (List.mem_cons_of_mem _ htransition)
      simp only [Matcher.choose, choose, Matcher.matchAs_fresh]
      match hmatch : r.matcher.matchAs transition.kind t with
      | .ok none => exact ih hothers h
      | .error e => exact ⟨h, rfl, rfl⟩
      | .ok (some (next, read)) =>
          let matched :=
            { r with matcher := next }.note (r.matcher.matchEvents transition.kind t)
          by_cases hlook : transition.lookahead
          · -- A tag line leaves the matcher alone, so both sides go on with it.
            have hnext : next = r.matcher := by
              rw [htags transition (by simp) hlook] at hmatch
              exact Matcher.eq_of_matchAs (by decide) (by decide) hmatch
            have hread : read.fresh = t.fresh := Matcher.fresh_of_matchAs hmatch
            obtain ⟨hverdict, hreader, hwait⟩ := lookAhead_spec (r := matched) h
            have hmatched : matched.reader = r.reader := by
              simp only [matched, hnext]; rfl
            have hpair : matched.lookAhead =
                (matched.lookAhead.1, some (r.matcher.examplesAhead ts)) :=
              Prod.ext rfl (by rw [hverdict, ← hnext]; rfl)
            simp only [hlook, if_true, Bool.true_and]
            rw [hpair]
            cases r.matcher.examplesAhead ts with
            | true =>
                refine ⟨hwait, ?_, rfl⟩
                rw [hreader, hmatched, hnext]
                rfl
            | false =>
                have hmatcher : matched.lookAhead.1.matcher = r.matcher := by
                  rw [← hnext]
                  exact congrArg Reader.matcher hreader
                have hchoose := ih hothers (t := read) hwait
                rw [hmatcher, hread] at hchoose
                refine ⟨hchoose.awaits, ?_, hchoose.accepted⟩
                rw [hchoose.reader]
                simp only [readerBehind, hreader, hmatched]
                rfl
          · simp only [hlook, Bool.false_eq_true, if_false, Bool.false_and]
            exact ⟨h, rfl, rfl⟩

/-! ### Steps and runs -/

/-- What a token has been read as does not matter when it is skipped, unless it
is the end of the source. -/
theorem reject_fresh (r : Reader) {t : Token} (ht : t.isEof → t.fresh = t) :
    r.reject t.fresh = r.reject t := by
  by_cases heof : t.isEof
  · rw [ht heof]
  · rw [Reader.reject, Reader.reject, Token.fresh_isEof, if_neg heof, if_neg heof]
    rfl

theorem choice_spec {r : Run} {t : Token} {ts : List Token} (h : r.Awaits ts) :
    r.ChoosesAs ts (r.reader.choice t.fresh ts) (r.choose t r.state.transitions) :=
  choose_spec (fun _ hmem hlook => kind_eq_tagLine_of_lookahead hmem hlook) h

theorem acceptance?_spec {r : Run} {t : Token} {ts : List Token} (h : r.Awaits ts) :
    r.acceptance? t = Acceptance.ofChoice (r.reader.choice t.fresh ts) := by
  obtain ⟨-, hreader, haccepted⟩ := choice_spec (t := t) h
  rw [acceptance?]
  generalize r.choose t r.state.transitions = result at hreader haccepted
  obtain ⟨chosen, accepted⟩ := result
  match hcase : r.reader.choice t.fresh ts with
  | .error e =>
      rw [hcase] at haccepted
      obtain rfl : accepted = none := haccepted
      rfl
  | .ok none =>
      rw [hcase] at haccepted
      obtain rfl : accepted = none := haccepted
      rfl
  | .ok (some a) =>
      rw [hcase] at hreader haccepted
      obtain rfl : accepted = some (a.transition, a.token) := haccepted
      have hmatcher : chosen.matcher = a.matcher := congrArg Reader.matcher hreader
      simp only [hmatcher]
      rfl

/-- Taking a token does what the reader does with the same token. -/
theorem take_spec {r : Run} {t : Token} {ts : List Token} (hfailure : r.failure = none)
    (ht : t.isEof → t.fresh = t) (h : r.Awaits ts) :
    (r.take t).reader = r.reader.take t.fresh ts ∧ (r.take t).Awaits ts := by
  have hchoice := choice_spec (t := t) h
  rw [take, Reader.take]
  generalize r.choose t r.state.transitions = result at hchoice
  obtain ⟨chosen, accepted⟩ := result
  obtain ⟨hwait, hreader, haccepted⟩ := hchoice
  match hcase : r.reader.choice t.fresh ts with
  | .error e =>
      rw [hcase] at hreader haccepted
      obtain rfl : accepted = none := haccepted
      have hfailed : chosen.failure = some (.dialect e) :=
        congrArg Reader.failure hreader
      simp only [hfailed, Option.isSome_some, if_true]
      exact ⟨hreader, hwait⟩
  | .ok none =>
      rw [hcase] at hreader haccepted
      obtain rfl : accepted = none := haccepted
      have hfailed : chosen.failure = none :=
        (congrArg Reader.failure hreader).trans hfailure
      have hreader : chosen.reader = r.reader := hreader
      have hrejected := reject_becomes chosen t
      simp only [hfailed, Option.isSome_none, Bool.false_eq_true, if_false]
      rw [reject_fresh r.reader ht, ← hreader]
      exact ⟨hrejected.reader, hrejected.awaits hwait⟩
  | .ok (some a) =>
      rw [hcase] at hreader haccepted
      obtain rfl : accepted = some (a.transition, a.token) := haccepted
      have hreader : chosen.reader = { r.reader with matcher := a.matcher } := hreader
      have haccept := accept_becomes chosen a.transition a.token
      simp only
      rw [← hreader]
      exact ⟨haccept.reader, haccept.awaits hwait⟩

/-- What a run is after it has fetched the token `t`, with `ts` behind it.  Behind
the end of the source it would only find the end again. -/
structure Fetches (r : Run) (t : Token) (ts : List Token) (fetched : Run)
    (read : Token) : Prop where
  next : r.next = (fetched, some read)
  reader : fetched.reader = r.reader
  fresh : read.fresh = t
  isEof : read.isEof → read = t ∧ ts = [] ∧ fetched.Awaits [t]
  awaits : read.isEof = false → fetched.Awaits ts

theorem exists_fetches {r : Run} {t : Token} {ts : List Token} (h : r.Awaits (t :: ts)) :
    ∃ fetched read, r.Fetches t ts fetched read := by
  obtain ⟨limit, state, matcher, builder, ⟨source, line⟩, queue, ended, errors, failure,
    log⟩ := r
  rw [Awaits] at h
  simp only at h
  generalize hts : t :: ts = waiting at h
  cases h with
  | scanner hreadable =>
      cases source with
      | nil =>
          simp only [Source.tokens_nil, List.cons.injEq] at hts
          obtain ⟨rfl, rfl⟩ := hts
          exact ⟨_, _, rfl, rfl, rfl, fun _ => ⟨rfl, rfl, .scanner hreadable⟩, nofun⟩
      | cons read source =>
          obtain ⟨chars, rfl⟩ := hreadable read (by simp)
          simp only [Source.tokens_line, List.cons.injEq] at hts
          obtain ⟨rfl, rfl⟩ := hts
          refine ⟨_, _, rfl, rfl, rfl, nofun, fun _ => .scanner ?_⟩
          intro read hread
          exact hreadable read (by simp [hread])
  | line ht hrest =>
      simp only [List.cons.injEq] at hts
      obtain ⟨rfl, rfl⟩ := hts
      exact ⟨_, _, rfl, rfl, rfl, by simp [ht], fun _ => hrest⟩
  | eof hsource =>
      simp only [List.cons.injEq] at hts hsource
      obtain ⟨rfl, rfl⟩ := hts
      subst hsource
      refine ⟨_, _, rfl, rfl, rfl, fun _ => ⟨rfl, rfl, ?_⟩, nofun⟩
      exact .scanner (s := ⟨[], line⟩) nofun

/-- What follows the end of the source does not matter for taking it. -/
theorem choice_isEof (r : Reader) {t : Token} (ht : t.isEof) (ts ts' : List Token) :
    r.choice t ts = r.choice t ts' := by
  have hchoose : ∀ transitions : List Transition,
      (∀ transition ∈ transitions,
        transition.lookahead → transition.kind = .tagLine) →
      r.matcher.choose t ts transitions = r.matcher.choose t ts' transitions := by
    intro transitions htags
    induction transitions with
    | nil => rfl
    | cons transition transitions ih =>
        have hothers := ih fun transition htransition =>
          htags transition (List.mem_cons_of_mem _ htransition)
        by_cases hlook : transition.lookahead
        · have hkind := htags transition (by simp) hlook
          have hnone : r.matcher.matchAs transition.kind t = .ok none := by
            rw [Token.isEof, Option.isNone_iff_eq_none] at ht
            rw [hkind, Matcher.matchAs, ht]
            rfl
          simp only [Matcher.choose, hnone, hothers]
        · simp only [Matcher.choose, hothers, hlook, Bool.false_and]
  exact hchoose _ fun _ hmem hlook => kind_eq_tagLine_of_lookahead hmem hlook

/-- A step takes the first of the tokens that wait, as the reader does. -/
structure StepsAs (r : Run) (t : Token) (ts : List Token) : Prop where
  reader : r.step.reader = r.reader.take t ts
  taken : r.next.2.toList.map Token.fresh = [t]
  accepted : r.next.2.bind r.next.1.acceptance? =
    Acceptance.ofChoice (r.reader.choice t ts)
  ended : r.step.ended = t.isEof
  awaits : if t.isEof then ts = [] else r.step.Awaits ts

theorem stepsAs {r : Run} {t : Token} {ts : List Token} (hover : r.isOver = false)
    (h : r.Awaits (t :: ts)) : r.StepsAs t ts := by
  obtain ⟨fetched, read, hfetches⟩ := exists_fetches h
  obtain ⟨hfailure, -⟩ := failure_of_isOver_eq_false hover
  have hfetched : fetched.failure = none :=
    (congrArg Reader.failure hfetches.reader).trans hfailure
  have heof : t.isEof = read.isEof := by
    rw [← hfetches.fresh, Token.fresh_isEof]
  have hstep : r.step = { fetched.take read with ended := read.isEof } := by
    rw [step, ← isOver, hover, hfetches.next]
    rfl
  by_cases hread : read.isEof
  · obtain ⟨rfl, rfl, hwait⟩ := hfetches.isEof hread
    have hchoice := choice_isEof fetched.reader hread [read] []
    have htake := take_spec hfetched (fun _ => hfetches.fresh) hwait
    have haccepted := acceptance?_spec (t := read) hwait
    rw [Reader.take, hfetches.fresh, hchoice, ← Reader.take] at htake
    rw [hfetches.fresh, hchoice] at haccepted
    refine ⟨?_, ?_, ?_, ?_, ?_⟩
    · rw [hstep, ← hfetches.reader]
      exact htake.1
    · rw [hfetches.next, ← hfetches.fresh]
      simp [hfetches.fresh]
    · rw [hfetches.next, ← hfetches.reader]
      exact haccepted
    · rw [hstep]
    · rw [if_pos hread]
  · have hfalse : read.isEof = false := by simpa using hread
    have hwait := hfetches.awaits hfalse
    have htake := take_spec hfetched (fun h => absurd h hread) hwait
    have haccepted := acceptance?_spec (t := read) hwait
    rw [hfetches.fresh] at htake haccepted
    refine ⟨?_, ?_, ?_, ?_, ?_⟩
    · rw [hstep, ← hfetches.reader]
      exact htake.1
    · rw [hfetches.next, ← hfetches.fresh]
      rfl
    · rw [hfetches.next, ← hfetches.reader]
      exact haccepted
    · rw [hstep, heof]
    · rw [heof, if_neg hread, hstep]
      exact htake.2

theorem steps_of_isOver {r : Run} (h : r.isOver) (n : Nat) : steps n r = r := by
  induction n with
  | zero => rfl
  | succ n ih =>
      have hstep : r.step = r := if_pos h
      rw [steps, hstep, ih]

/-- A number of steps that is large enough reads all tokens that wait. -/
structure ReadsAs (r : Run) (n : Nat) (ts : List Token) : Prop where
  reader : (steps n r).reader = r.reader.read ts
  taken : (r.taken n).map Token.fresh = r.reader.taken ts
  acceptances : r.acceptances n = r.reader.acceptances ts

/-- A run that is over reads nothing, and neither does its reader. -/
theorem readsAs_of_isOver {r : Run} {ts : List Token} (hover : r.isOver = true)
    (h : ts = [] ∨ r.reader.failure.isSome = true) (n : Nat) : r.ReadsAs (n + 1) ts := by
  have hnone : r.reader.read ts = r.reader ∧ r.reader.taken ts = [] ∧
      r.reader.acceptances ts = [] := by
    rcases ts with _ | ⟨t, ts⟩
    · exact ⟨rfl, rfl, rfl⟩
    · have hfailure := h.resolve_left (List.cons_ne_nil t ts)
      exact ⟨if_pos hfailure, if_pos hfailure, if_pos hfailure⟩
  obtain ⟨hread, htaken, haccepted⟩ := hnone
  refine ⟨?_, ?_, ?_⟩
  · rw [steps_of_isOver hover, hread]
  · rw [taken, if_pos hover, htaken]
    rfl
  · rw [acceptances, if_pos hover, haccepted]

theorem readsAs {n : Nat} {r : Run} {ts : List Token} (hn : ts.length ≤ n)
    (h : if r.ended then ts = [] else r.Awaits ts) : r.ReadsAs n ts := by
  induction n generalizing r ts with
  | zero =>
      obtain rfl : ts = [] := List.length_eq_zero_iff.mp (Nat.le_zero.mp hn)
      exact ⟨rfl, rfl, rfl⟩
  | succ n ih =>
      cases ts with
      | nil =>
          have hended : r.ended := by
            cases hended : r.ended with
            | true => rfl
            | false =>
                rw [hended, if_neg Bool.false_ne_true] at h
                exact absurd rfl (Gherkin.Awaits.ne_nil h)
          exact readsAs_of_isOver (by simp [isOver, hended]) (.inl rfl) n
      | cons t ts =>
          have hended : r.ended = false := by
            cases hended : r.ended with
            | false => rfl
            | true => simp [hended] at h
          rw [hended, if_neg Bool.false_ne_true] at h
          cases hover : r.isOver with
          | true =>
              have hfailure : r.reader.failure.isSome = true := by
                rw [isOver, hended, Bool.or_false] at hover
                exact hover
              exact readsAs_of_isOver hover (.inr hfailure) n
          | false =>
              have hfailure : ¬r.reader.failure.isSome := by
                rw [isOver, hended, Bool.or_false] at hover
                exact Bool.not_eq_true _ |>.mpr hover
              have hfirst := stepsAs hover h
              have hothers := ih (r := r.step) (Nat.le_of_succ_le_succ hn)
                (by rw [hfirst.ended]; exact hfirst.awaits)
              refine ⟨?_, ?_, ?_⟩
              · rw [steps, hothers.reader, hfirst.reader, Reader.read, if_neg hfailure]
              · rw [taken, if_neg (by simp [hover]), List.map_append, hfirst.taken,
                  hothers.taken, hfirst.reader, Reader.taken, if_neg hfailure]
                rfl
              · rw [acceptances, if_neg (by simp [hover]), hfirst.accepted,
                  hothers.acceptances, hfirst.reader, Reader.acceptances, if_neg hfailure]

end Run

namespace Parser

/-- The tokens that a parser takes from a source, in order. -/
def taken (p : Parser) (source : Source) : List Token :=
  match p.run source with
  | .ok r => r.taken (r.unread + 1)
  | .error _ => []

/-- How a parser accepts the tokens of a source, in order. -/
def acceptances (p : Parser) (source : Source) : List Acceptance :=
  match p.run source with
  | .ok r => r.acceptances (r.unread + 1)
  | .error _ => []

/-- A run starts where the reader starts. -/
theorem run_eq (p : Parser) (source : Source) :
    match p.reader with
    | .ok reader => ∃ r, p.run source = .ok r ∧ r.reader = reader ∧ r.ended = false ∧
        r.queue = [] ∧ r.scanner = ⟨source, 0⟩
    | .error e => p.run source = .error e := by
  rw [Parser.reader, Parser.run]
  cases Matcher.start p.resolver with
  | error e => rfl
  | ok matcher =>
      simp only [Run.start]
      cases matcher.reset with
      | error e => rfl
      | ok reset => exact ⟨_, rfl, rfl, rfl, rfl, rfl⟩

theorem run_starts {p : Parser} {source : Source} {start : Run} (h : p.run source = .ok start) :
    p.reader = .ok start.reader ∧ start.ended = false ∧ start.queue = [] ∧
      start.scanner = ⟨source, 0⟩ := by
  have hrun := p.run_eq source
  rw [h] at hrun
  cases hreader : p.reader with
  | error e =>
      rw [hreader] at hrun
      cases hrun
  | ok reader =>
      rw [hreader] at hrun
      obtain ⟨started, hstarted, rfl, hfetches⟩ := hrun
      obtain rfl := Except.ok.inj hstarted
      exact ⟨rfl, hfetches⟩

theorem run_awaits {p : Parser} {lines : List (List Char)} {start : Run}
    (h : p.run (.ofLines lines) = .ok start) :
    start.Awaits (Source.tokens 0 (.ofLines lines)) := by
  obtain ⟨-, -, hqueue, hscanner⟩ := run_starts h
  rw [Run.Awaits, hqueue, hscanner]
  exact .scanner (Source.readable_ofLines lines)

/-- A complete run reads the tokens of its source as the reader does. -/
theorem run_readsAs {p : Parser} {lines : List (List Char)} {start : Run}
    (h : p.run (.ofLines lines) = .ok start) :
    start.ReadsAs (start.unread + 1) (Source.tokens 0 (.ofLines lines)) ∧
      start.complete.reader = start.reader.complete (Source.tokens 0 (.ofLines lines)) := by
  obtain ⟨-, hended, hqueue, hscanner⟩ := run_starts h
  have hlength : (Source.tokens 0 (.ofLines lines)).length ≤ start.unread + 1 := by
    rw [Source.length_tokens (Source.readable_ofLines lines), Run.unread, hqueue, hscanner]
    simp
  have hreads := Run.readsAs hlength (by rw [hended]; exact run_awaits h)
  have hclosed := Run.closeRule_becomes (Run.steps (start.unread + 1) start)
  rw [hreads.reader] at hclosed
  exact ⟨hreads, hclosed.reader⟩

/-- What is accepted from a source is what the reader accepts among its tokens. -/
theorem acceptances_of_run {p : Parser} {lines : List (List Char)} {start : Run}
    (h : p.run (.ofLines lines) = .ok start) :
    p.acceptances (.ofLines lines) =
      start.reader.acceptances (Source.tokens 0 (.ofLines lines)) := by
  rw [acceptances, h]
  exact (run_readsAs h).1.acceptances

/-- What a report says is what the run has come to. -/
theorem report_outcome (p : Parser) (source : Source) :
    (p.report source).outcome =
      match p.run source with
      | .ok r => r.complete.outcome
      | .error e => .error (.dialect e) := by
  rw [Parser.report, Parser.run]
  cases Matcher.start p.resolver with
  | error e => rfl
  | ok matcher =>
      cases hrun : Run.start p.limit matcher {} source with
      | error e => simp only [hrun]
      | ok r => simp only [hrun]

/-- A document that has been parsed is what a run has come to. -/
theorem exists_run_of_parse {p : Parser} {source : Source} {document : Document}
    (h : p.parse source = .ok document) :
    ∃ start, p.run source = .ok start ∧ start.complete.outcome = .ok document := by
  rw [parse, report_outcome] at h
  cases hstart : p.run source with
  | error e =>
      rw [hstart] at h
      cases h
  | ok start =>
      rw [hstart] at h
      exact ⟨start, rfl, h⟩

/-- What a run comes to, what it takes and what it accepts are what the reader of
the parser makes of the tokens of the source. -/
theorem readsAs_ofLines (p : Parser) (lines : List (List Char)) :
    match p.reader with
    | .ok r =>
      (p.report (.ofLines lines)).outcome =
          (r.complete (Source.tokens 0 (.ofLines lines))).outcome ∧
        (p.taken (.ofLines lines)).map Token.fresh =
          r.taken (Source.tokens 0 (.ofLines lines)) ∧
        p.acceptances (.ofLines lines) =
          r.acceptances (Source.tokens 0 (.ofLines lines))
    | .error e =>
      (p.report (.ofLines lines)).outcome = .error (.dialect e) ∧
        p.taken (.ofLines lines) = [] ∧ p.acceptances (.ofLines lines) = [] := by
  have hrun := p.run_eq (.ofLines lines)
  rw [report_outcome, taken, acceptances]
  cases hreader : p.reader with
  | error e =>
      rw [hreader] at hrun
      simp only [hrun, and_self]
  | ok reader =>
      rw [hreader] at hrun
      obtain ⟨r, hr, rfl, -⟩ := hrun
      obtain ⟨hreads, hcomplete⟩ := run_readsAs hr
      simp only [hr]
      refine ⟨?_, hreads.taken, hreads.acceptances⟩
      rw [← hcomplete]
      rfl

end Parser

/-! ### What is left untaken -/

/-- A failure that stops a run before the end of its source: a language that
cannot be used, or more errors than the limit allows. -/
def Failure.StopsEarly (limit : Option Nat) : Failure → Prop
  | .scan _ => False
  | .dialect _ => True
  | .parse errors => limit.any fun limit => limit < errors.length

namespace Reader

/-- A reader has failed for a reason that stops it, if it has failed. -/
def FailsEarly (r : Reader) : Prop :=
  ∀ failure, r.failure = some failure → failure.StopsEarly r.limit

theorem addError_failsEarly {r : Reader} (h : r.FailsEarly) (e : SyntaxError) :
    (r.addError e).FailsEarly ∧ (r.addError e).limit = r.limit := by
  rw [addError]
  split
  · next hlimit =>
      refine ⟨?_, rfl⟩
      intro failure hfailure
      obtain rfl : Failure.parse (r.errors ++ [e]) = failure := by simpa using hfailure
      exact hlimit
  · exact ⟨h, rfl⟩

theorem closeRule_failsEarly {r : Reader} (h : r.FailsEarly) :
    r.closeRule.FailsEarly ∧ r.closeRule.limit = r.limit := by
  rw [closeRule]
  split
  · exact ⟨h, rfl⟩
  · split
    · exact ⟨h, rfl⟩
    · next builder e _ => exact addError_failsEarly (r := { r with builder := builder }) h e

theorem closeRules_failsEarly (n : Nat) {r : Reader} (h : r.FailsEarly) :
    (r.closeRules n).FailsEarly ∧ (r.closeRules n).limit = r.limit := by
  induction n generalizing r with
  | zero => exact ⟨h, rfl⟩
  | succ n ih =>
      obtain ⟨hfirst, hlimit⟩ := closeRule_failsEarly h
      obtain ⟨hothers, hlimits⟩ := ih hfirst
      exact ⟨hothers, hlimits.trans hlimit⟩

theorem take_failsEarly {r : Reader} (h : r.FailsEarly) (t : Token) (ts : List Token) :
    (r.take t ts).FailsEarly ∧ (r.take t ts).limit = r.limit := by
  rw [take]
  split
  · refine ⟨?_, rfl⟩
    intro failure hfailure
    obtain rfl : Failure.dialect _ = failure := by simpa using hfailure
    trivial
  · rw [reject]
    split
    · exact addError_failsEarly h _
    · exact addError_failsEarly h _
  · next a _ =>
      have hclosed := closeRules_failsEarly a.transition.closes
        (r := { r with matcher := a.matcher }) h
      rw [accept]
      split
      · exact hclosed
      · exact hclosed

theorem read_failsEarly {r : Reader} (h : r.FailsEarly) (ts : List Token) :
    (r.read ts).FailsEarly ∧ (r.read ts).limit = r.limit := by
  induction ts generalizing r with
  | nil => exact ⟨h, rfl⟩
  | cons t ts ih =>
      rw [read]
      split
      · exact ⟨h, rfl⟩
      · obtain ⟨hfirst, hlimit⟩ := take_failsEarly h t ts
        obtain ⟨hothers, hlimits⟩ := ih hfirst
        exact ⟨hothers, hlimits.trans hlimit⟩

theorem read_of_failure {r : Reader} (h : r.failure.isSome) (ts : List Token) :
    r.read ts = r := by
  cases ts with
  | nil => rfl
  | cons t ts => rw [read, if_pos h]

/-- A reader takes the first of the tokens, and all of them unless it fails. -/
theorem taken_prefix (r : Reader) (ts : List Token) :
    r.taken ts <+: ts ∧ (r.taken ts ≠ ts → (r.read ts).failure.isSome) := by
  induction ts generalizing r with
  | nil => exact ⟨List.prefix_rfl, fun h => absurd rfl h⟩
  | cons t ts ih =>
      rw [taken, read]
      split
      · next hfailure => exact ⟨List.nil_prefix, fun _ => hfailure⟩
      · obtain ⟨hfront, hcut⟩ := ih (r.take t ts)
        refine ⟨List.cons_prefix_cons.mpr ⟨rfl, hfront⟩, ?_⟩
        intro hne
        exact hcut fun heq => hne (by rw [heq])

theorem complete_outcome_of_failure {r : Reader} {ts : List Token} {failure : Failure}
    (h : (r.read ts).failure = some failure) : (r.complete ts).outcome = .error failure := by
  rw [complete, closeRule, if_pos (by rw [h]; rfl), outcome, h]

end Reader

namespace Parser

theorem reader_failsEarly {p : Parser} {r : Reader} (h : p.reader = .ok r) :
    r.FailsEarly ∧ r.limit = p.limit := by
  obtain ⟨matcher, rfl⟩ := exists_start_of_reader h
  refine ⟨?_, rfl⟩
  intro failure hfailure
  cases hfailure

/-- Parsing a source reads its tokens. -/
theorem parse_ofLines (p : Parser) (lines : List (List Char)) :
    p.parse (.ofLines lines) = p.readTokens (Source.tokens 0 (.ofLines lines)) := by
  have hreads := p.readsAs_ofLines lines
  rw [parse, readTokens]
  cases hreader : p.reader <;> rw [hreader] at hreads <;> exact hreads.1

/-- The queue is transparent.  A run takes the tokens of its source in order,
each of them once, up to and including the end of the source or up to the
token with which it stops for good.  It comes to the outcome of the reader that
walks over these tokens as they come from the scanner. -/
theorem report_ofLines (p : Parser) (lines : List (List Char)) :
    (p.report (.ofLines lines)).outcome =
        p.readTokens (Source.tokens 0 (.ofLines lines)) ∧
      (p.taken (.ofLines lines)).map Token.fresh <+: Source.tokens 0 (.ofLines lines) ∧
      ((p.taken (.ofLines lines)).map Token.fresh ≠ Source.tokens 0 (.ofLines lines) →
        ∃ failure, (p.report (.ofLines lines)).outcome = .error failure ∧
          failure.StopsEarly p.limit) := by
  have hreads := p.readsAs_ofLines lines
  rw [readTokens]
  cases hreader : p.reader with
  | error e =>
      rw [hreader] at hreads
      obtain ⟨houtcome, htaken, -⟩ := hreads
      rw [houtcome, htaken]
      exact ⟨rfl, List.nil_prefix, fun _ => ⟨_, rfl, trivial⟩⟩
  | ok r =>
      rw [hreader] at hreads
      obtain ⟨houtcome, htaken, -⟩ := hreads
      obtain ⟨hfront, hcut⟩ := r.taken_prefix (Source.tokens 0 (.ofLines lines))
      obtain ⟨hearly, hlimit⟩ := reader_failsEarly hreader
      rw [houtcome, htaken]
      refine ⟨rfl, hfront, ?_⟩
      intro hne
      obtain ⟨failure, hfailure⟩ := Option.isSome_iff_exists.mp (hcut hne)
      obtain ⟨hstops, hlimits⟩ := Reader.read_failsEarly hearly
        (Source.tokens 0 (.ofLines lines))
      refine ⟨failure, Reader.complete_outcome_of_failure hfailure, ?_⟩
      rw [← hlimit, ← hlimits]
      exact hstops failure hfailure

/-- A language that cannot be used stops a run in front of the end of its source. -/
theorem taken_ne_tokens_of_unsupported :
    let lines := ["# language: xx".toList, "Feature: a".toList]
    (Parser.taken {} (.ofLines lines)).map Token.fresh ≠ Source.tokens 0 (.ofLines lines) := by
  intro lines h
  have hlength : (Parser.taken {} (.ofLines lines)).length = 1 := by decide +kernel
  have htokens : (Source.tokens 0 (.ofLines lines)).length = 3 := rfl
  rw [← h, List.length_map, hlength] at htokens
  cases htokens

end Parser
end Gherkin
