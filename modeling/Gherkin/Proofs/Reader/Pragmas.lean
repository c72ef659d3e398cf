import Gherkin.Proofs.Dialect.Keywords
import Gherkin.Proofs.Draft.Acceptance
import Gherkin.Proofs.Reader.Fronts
import Gherkin.Proofs.Recovery.Refusals

/-!
# Pragmas and the dialect

A pragma is tried only at the start of a document.  There it is the first kind
that a line is tried as, and nothing but a tag line or the title line of a
feature ends the search for it; lines that are skipped do not.  Behind the start
no line changes the dialect.
-/

namespace Gherkin

/-- At the start of a document a line ends the search for a pragma when it is one, or a tag line
or the title line of a feature. -/
def Dialect.opens (d : Dialect) (l : Line) : Bool :=
  l.languageTag?.isSome || l.startsWith "@" ||
    (d.keywords .feature).any fun keyword => (l.title? keyword).isSome

namespace Token

/-- The language tag on the line, if it is a pragma. -/
def languageTag? (t : Token) : Option String :=
  t.line.bind Line.languageTag?

/-- The line ends the search for a pragma. -/
def opens (d : Dialect) (t : Token) : Bool :=
  t.line.any d.opens

/-- Pragmas end the search, whatever the dialect is. -/
theorem opens_of_languageTag? {t : Token} {tag : String} (h : t.languageTag? = some tag)
    (d : Dialect) : t.opens d = true := by
  obtain ⟨l, hl, htag⟩ := Option.bind_eq_some_iff.mp h
  rw [opens, hl, Option.any_some, Dialect.opens, htag]
  rfl

/-- A line that is neither blank nor a comment. -/
def isStray (t : Token) : Bool :=
  t.line.any fun l => !l.isEmpty && !l.startsWith "#"

end Token

namespace State

theorem next_ne_start_of_ne {s : State} (h : s ≠ start) : ∀ u ∈ s.transitions, u.next ≠ start := by
  revert s
  decide

/-- At the start of a document only the title line of a feature has a keyword. -/
theorem kind_of_category?_start :
    ∀ u ∈ start.transitions, u.kind.category?.isSome → u.kind = .featureLine := by
  decide

/-- At the start of a document no rule is open that could be closed. -/
theorem closes_of_start : ∀ u ∈ start.transitions, u.closes = 0 ∧ u.lookahead = false := by
  decide

/-- Every line that starts like a comment is accepted, as a comment or as free text. -/
theorem comment_or_other_mem_expected {s : State} (h : s ≠ finished) :
    .comment ∈ s.expected ∨ .other ∈ s.expected := by
  revert s
  decide

theorem kind_eq_eof_of_next {s : State} :
    ∀ u ∈ s.transitions, u.next = finished → u.kind = .eof := by
  revert s
  decide

/-- Only blank lines and comments keep a document at its start. -/
theorem next_of_start : ∀ u ∈ start.transitions,
    (u.kind ∈ [.comment, .empty] → u.next = start) ∧
      (u.kind ∉ [.comment, .empty] → u.next ≠ start) := by
  decide

end State

namespace Matcher

variable {m next : Matcher} {kind : TokenKind} {t read : Token}

/-- Only a pragma is read as one. -/
theorem exists_languageTag?_of_isOf (h : m.isOf .language t = true) :
    ∃ tag, t.languageTag? = some tag := by
  obtain ⟨content, hcontent⟩ := Option.isSome_iff_exists.mp h
  cases hline : t.line with
  | none =>
      rw [hline] at hcontent
      cases hcontent
  | some l =>
      rw [hline] at hcontent
      obtain ⟨tag, htag, -⟩ := Option.map_eq_some_iff.mp hcontent
      exact ⟨tag, by rw [Token.languageTag?, hline, Option.bind_some, htag]⟩

/-- A choice fails with one of its transitions. -/
theorem exists_of_choose_eq_error {following : List Token} {transitions : List Transition}
    {e : DialectError} (h : m.choose t following transitions = .error e) :
    ∃ u ∈ transitions, m.matchAs u.kind t = .error e := by
  fun_induction m.choose t following transitions with
  | case1 => cases h
  | case2 u us _ ih | case4 u us _ _ _ _ ih =>
      obtain ⟨v, hv, hmatch⟩ := ih h
      exact ⟨v, List.mem_cons_of_mem _ hv, hmatch⟩
  | case3 u us e' hmatch =>
      cases h
      exact ⟨u, List.mem_cons_self, hmatch⟩
  | case5 u us => cases h

/-! ### The kinds of a line at the start of a document -/

theorem isOf_eof_of_line (m : Matcher) (h : t.isEof = false) : m.isOf .eof t = false := by
  rw [Token.isEof, Option.isNone_eq_false_iff] at h
  obtain ⟨l, hl⟩ := Option.isSome_iff_exists.mp h
  rw [isOf, hl]
  rfl

theorem opens_eq (m : Matcher) (t : Token) :
    t.opens m.dialect =
      (m.isOf .language t || m.isOf .tagLine t || m.isOf .featureLine t) := by
  obtain ⟨line, number, reading⟩ := t
  cases line with
  | none => rfl
  | some l =>
      have htitle : (m.title? .feature l).isSome =
          (m.dialect.keywords .feature).any fun keyword => (l.title? keyword).isSome := by
        simp [title?, List.isSome_findSome?]
      have htag : (if l.startsWith "@" then some (⟨none, none, l.words, l.indent⟩ : Content)
          else none).isSome = l.startsWith "@" := by
        cases l.startsWith "@" <;> rfl
      simp only [Token.opens, Option.any_some, Dialect.opens, isOf, content?, lineContent?,
        Option.isSome_map, htitle, htag]

theorem isStray_eq (m : Matcher) (h : t.isEof = false) :
    t.isStray = !(m.isOf .comment t || m.isOf .empty t) := by
  obtain ⟨line, number, reading⟩ := t
  cases line with
  | none => cases h
  | some l =>
      simp only [Token.isStray, Option.any_some, isOf, content?, lineContent?]
      cases l.isEmpty <;> cases l.startsWith "#" <;> rfl

/-- What becomes of a line at the start of a document that does not end the search for a pragma:
a comment or a blank line is accepted, and any other line is not. -/
theorem choose_of_not_opens (hline : t.isEof = false) (hopens : t.opens m.dialect = false)
    (following : List Token) :
    if t.isStray then m.choose t following State.start.transitions = .ok none
    else ∃ kind ∈ [TokenKind.comment, .empty], ∃ read,
      m.choose t following State.start.transitions =
        .ok (some ⟨State.start.stay kind, m, read⟩) := by
  have heof := isOf_eof_of_line m hline
  rw [opens_eq, Bool.or_eq_false_iff, Bool.or_eq_false_iff] at hopens
  obtain ⟨⟨hlanguage, htag⟩, hfeature⟩ := hopens
  have htags : ∀ u ∈ State.start.transitions, u.lookahead → u.kind = .tagLine := by decide
  have haccepted {kind : TokenKind} (hkind : kind ∈ [.comment, .empty])
      (hof : m.isOf kind t = true)
      (hfind : (State.start.transitions.find? fun u =>
        m.isOf u.kind t && (!u.lookahead || m.examplesAhead following)) =
          some (State.start.stay kind)) :
      ∃ kind ∈ [TokenKind.comment, .empty], ∃ read,
        m.choose t following State.start.transitions =
          .ok (some ⟨State.start.stay kind, m, read⟩) := by
    obtain ⟨next, read, hmatch⟩ := exists_matchAs_of_isOf hof (by rintro rfl; simp at hkind)
    have hsame : next = m :=
      eq_of_matchAs (by rintro rfl; simp at hkind) (by rintro rfl; simp at hkind) hmatch
    rw [hsame] at hmatch
    exact ⟨kind, hkind, read, choose_of_find? htags hfind hmatch⟩
  rw [isStray_eq m hline]
  cases hcomment : m.isOf .comment t with
  | true =>
      apply haccepted (by simp) hcomment
      simp [State.transitions, State.gaps, State.stay, State.go, State.move, State.finish, heof,
        hlanguage, htag, hfeature, hcomment]
  | false =>
      cases hempty : m.isOf .empty t with
      | true =>
          apply haccepted (by simp) hempty
          simp [State.transitions, State.gaps, State.stay, State.go, State.move, State.finish,
            heof, hlanguage, htag, hfeature, hcomment, hempty]
      | false =>
          apply choose_eq_none
          simp [State.transitions, State.gaps, State.stay, State.go, State.move, State.finish,
            heof, hlanguage, htag, hfeature, hcomment, hempty]

/-- A tag line or the title line of a feature is accepted at the start of a document. -/
theorem exists_choose_of_opens (hopens : t.opens m.dialect = true)
    (htag : t.languageTag? = none) (following : List Token) :
    ∃ a, m.choose t following State.start.transitions = .ok (some a) ∧
      a.transition.kind ∈ [.tagLine, .featureLine] := by
  have hline : t.isEof = false := by
    obtain ⟨line, number, reading⟩ := t
    cases line with
    | none => cases hopens
    | some l => rfl
  have heof := isOf_eof_of_line m hline
  have hlanguage : m.isOf .language t = false := by
    rw [← Bool.not_eq_true]
    intro hof
    obtain ⟨tag, hsome⟩ := exists_languageTag?_of_isOf hof
    rw [htag] at hsome
    cases hsome
  rw [opens_eq, hlanguage, Bool.false_or] at hopens
  have htags : ∀ u ∈ State.start.transitions, u.lookahead → u.kind = .tagLine := by decide
  cases hof : m.isOf .tagLine t with
  | true =>
      obtain ⟨next, read, hmatch⟩ := exists_matchAs_of_isOf hof (by decide)
      refine ⟨⟨State.start.move .tagLine 0 [.feature, .featureHeader, .tags] .featureTags, next,
        read⟩, choose_of_find? htags ?_ hmatch, List.mem_cons_self⟩
      simp [State.transitions, State.move, State.finish, heof, hlanguage, hof]
  | false =>
      have hfeature : m.isOf .featureLine t = true := by rwa [hof, Bool.false_or] at hopens
      obtain ⟨next, read, hmatch⟩ := exists_matchAs_of_isOf hfeature (by decide)
      refine ⟨⟨State.start.move .featureLine 0 [.feature, .featureHeader]
        (.header .feature .title), next, read⟩, choose_of_find? htags ?_ hmatch,
        List.mem_cons_of_mem _ List.mem_cons_self⟩
      simp [State.transitions, State.move, State.finish, heof, hlanguage, hof, hfeature]

/-- At the start of a document a pragma is read as one: its language becomes that of the
matcher, or the choice fails. -/
theorem choose_of_pragma {tag : String} (htag : t.languageTag? = some tag)
    (following : List Token) :
    match m.resolver.resolve tag ⟨t.number, t.lineIndent + 1⟩ with
    | .error e => m.choose t following State.start.transitions = .error e
    | .ok (dialect, resolver) => ∃ u read,
        u ∈ State.start.transitions ∧ u.kind = .language ∧
          m.choose t following State.start.transitions =
            .ok (some ⟨u, { m with resolver := resolver, dialect := dialect }, read⟩) := by
  obtain ⟨line, number, reading⟩ := t
  cases line with
  | none => cases htag
  | some l =>
      have hl : l.languageTag? = some tag := htag
      have hcontent : m.content? .language (some l) =
          some { text := some tag, indent := l.indent } := by
        rw [content?, lineContent?, hl]
        rfl
      let u := State.start.move .language 0 [.feature, .featureHeader] .language
      have hrest : m.choose ⟨some l, number, reading⟩ following State.start.transitions =
          m.choose ⟨some l, number, reading⟩ following
            (u :: State.start.transitions.tail.tail) := by
        rw [State.transitions, List.cons_append, choose, State.finish, State.move]
        rfl
      rw [hrest, choose]
      simp only [u, State.move, matchAs, hcontent, after, Option.getD_some]
      rcases m.resolver.resolve tag _ with e | ⟨dialect, resolver⟩
      · rfl
      · exact ⟨u, _, by decide, rfl, rfl⟩

end Matcher

namespace Reader

variable {r : Reader} {t : Token} {ts : List Token}

/-- The reader has not failed for a language that cannot be used. -/
def KnowsLanguage (r : Reader) : Prop :=
  ∀ e, r.failure ≠ some (.dialect e)

theorem KnowsLanguage.addError (h : r.KnowsLanguage) (e : SyntaxError) :
    (r.addError e).KnowsLanguage := by
  rw [Reader.addError]
  split
  · intro e' he
    cases he
  · exact h

theorem KnowsLanguage.closeRule (h : r.KnowsLanguage) : r.closeRule.KnowsLanguage := by
  rw [Reader.closeRule]
  split
  · exact h
  · split
    · exact h
    · next builder e _ => exact addError (r := { r with builder := builder }) h e

theorem KnowsLanguage.closeRules (h : r.KnowsLanguage) (n : Nat) :
    (r.closeRules n).KnowsLanguage := by
  induction n generalizing r with
  | zero => exact h
  | succ n ih => exact ih h.closeRule

theorem KnowsLanguage.take (h : r.KnowsLanguage) (hchoice : ∀ e, r.choice t ts ≠ .error e) :
    (r.take t ts).KnowsLanguage := by
  rw [Reader.take]
  rcases hcase : r.choice t ts with e | _ | a
  · exact absurd hcase (hchoice e)
  · simp only [reject]
    split
    · exact h.addError _
    · exact h.addError _
  · have hclosed := closeRules (r := { r with matcher := a.matcher }) h a.transition.closes
    simp only [accept]
    split
    · exact hclosed
    · exact hclosed

/-! ### Lines that do not change the dialect -/

/-- A pragma at the start of a document is the only line that a choice can fail with, and the
only one that changes the dialect. -/
theorem dialect_of_choice (ts : List Token) (h : r.state = .start → t.languageTag? = none) :
    (∀ e, r.choice t ts ≠ .error e) ∧
      ∀ a, r.choice t ts = .ok (some a) →
        a.transition.kind ≠ .language ∧ a.matcher.dialect = r.matcher.dialect := by
  have hnot : ∀ u ∈ r.state.transitions, u.kind = .language → r.matcher.isOf u.kind t = false := by
    intro u hu hkind
    have hstart : r.state = .start := by
      by_contra hne
      exact State.kind_ne_language hne u hu hkind
    rw [hkind, ← Bool.not_eq_true]
    intro hof
    obtain ⟨tag, htag⟩ := Matcher.exists_languageTag?_of_isOf hof
    rw [h hstart] at htag
    cases htag
  constructor
  · intro e hchoice
    obtain ⟨u, hu, hmatch⟩ := Matcher.exists_of_choose_eq_error hchoice
    obtain ⟨hkind, hof⟩ := Matcher.kind_eq_language_of_matchAs hmatch
    rw [hnot u hu hkind] at hof
    cases hof
  · intro a hchoice
    obtain ⟨hfind, hmatch⟩ := Matcher.choose_eq_some hchoice
    have hkind : a.transition.kind ≠ .language := by
      intro hkind
      rw [Matcher.matchAs_of_isOf_eq_false
        (hnot _ (List.mem_of_find?_eq_some hfind) hkind)] at hmatch
      cases hmatch
    exact ⟨hkind, Matcher.dialect_of_matchAs hkind hmatch⟩

theorem dialect_take (h : r.state = .start → t.languageTag? = none) :
    (r.take t ts).matcher.dialect = r.matcher.dialect := by
  obtain ⟨herror, haccepted⟩ := dialect_of_choice ts h
  rcases hchoice : r.choice t ts with e | _ | a
  · exact absurd hchoice (herror e)
  · rw [(take_of_choice_eq_none hchoice).2]
  · rw [(take_of_choice hchoice).1]
    exact (haccepted a hchoice).2

/-- A reader stays where it is or goes where an acceptance leads. -/
theorem state_take (r : Reader) (t : Token) (ts : List Token) :
    (r.take t ts).state = r.state ∨
      ∃ a, r.choice t ts = .ok (some a) ∧ a.transition ∈ r.state.transitions ∧
        (r.take t ts).state = a.transition.next := by
  rcases hchoice : r.choice t ts with e | _ | a
  · left
    rw [take, hchoice]
  · exact .inl (take_of_choice_eq_none hchoice).1
  · have hframe := (closeRules_frame a.transition.closes { r with matcher := a.matcher }).1
    have hmem := List.mem_of_find?_eq_some (Matcher.choose_eq_some hchoice).1
    rw [take, hchoice]
    simp only [accept]
    split
    · exact .inl hframe
    · exact .inr ⟨a, rfl, hmem, rfl⟩

/-- Nothing leads back to the start of a document. -/
theorem state_take_ne_start (h : r.state ≠ .start) : (r.take t ts).state ≠ .start := by
  rcases r.state_take t ts with hstate | ⟨a, -, hmem, hstate⟩
  · rw [hstate]
    exact h
  · rw [hstate]
    exact State.next_ne_start_of_ne h _ hmem

/-- Only the end of the source ends a document. -/
theorem state_take_ne_finished (h : r.state ≠ .finished) (hline : t.isEof = false) :
    (r.take t ts).state ≠ .finished := by
  rcases r.state_take t ts with hstate | ⟨a, hchoice, hmem, hstate⟩
  · rw [hstate]
    exact h
  · rw [hstate]
    intro hfinished
    obtain ⟨-, hmatch⟩ := Matcher.choose_eq_some hchoice
    rw [State.kind_eq_eof_of_next _ hmem hfinished,
      Matcher.matchAs_of_isOf_eq_false (Matcher.isOf_eof_of_line _ hline)] at hmatch
    cases hmatch

/-! ### The start of a document -/

variable {front rest : List Token}

/-- A line that is accepted at the start of a document closes nothing. -/
theorem take_of_start (hstate : r.state = .start) (hfailure : r.failure = none) {a : Acceptance}
    (hchoice : r.choice t ts = .ok (some a)) :
    (r.take t ts).state = a.transition.next ∧ (r.take t ts).matcher = a.matcher ∧
      (r.take t ts).limit = r.limit ∧ (r.take t ts).errors = r.errors ∧
      (r.take t ts).failure = none := by
  obtain ⟨hfind, -⟩ := Matcher.choose_eq_some hchoice
  have hmem := List.mem_of_find?_eq_some hfind
  rw [hstate] at hmem
  have hcloses := (State.closes_of_start a.transition hmem).1
  rw [take, hchoice]
  simp only [accept, hcloses, closeRules, hfailure]
  exact ⟨rfl, rfl, rfl, rfl, rfl⟩

/-- Whether errors and lines that will be skipped fit under the limit. -/
def fits (r : Reader) (ts : List Token) : Bool :=
  r.limit.all fun limit => r.errors.length + ts.countP Token.isStray ≤ limit

theorem fits_nil (hfine : r.Fine) : r.fits [] = true := by
  rw [fits, Option.all_eq_true]
  intro limit hlimit
  have hlength := hfine.room limit hlimit
  rw [List.append_nil] at hlength
  rw [List.countP_nil, Nat.add_zero]
  exact decide_eq_true hlength

/-- Where there is no room for another error there is none for a line that is skipped. -/
theorem fits_cons_of_full (hstray : t.isStray = true) {e : SyntaxError} (hroom : ¬r.HasRoom [e])
    (front : List Token) : r.fits (t :: front) = false := by
  rw [fits, List.countP_cons_of_pos hstray, ← Bool.not_eq_true, Option.all_eq_true]
  intro hall
  refine hroom fun limit hlimit => ?_
  have hlength := of_decide_eq_true (hall limit hlimit)
  rw [List.length_append, List.length_singleton]
  omega

/-- Lines at the start of a document that do not end the search for a pragma leave the reader
there, unless too many of them are skipped. -/
theorem readFront_of_not_opens (rest : List Token) (hstate : r.state = .start) (hfine : r.Fine)
    (hfront : ∀ t ∈ front, t.isEof = false ∧ t.opens r.matcher.dialect = false) :
    (r.readFront front rest).state = .start ∧ (r.readFront front rest).matcher = r.matcher ∧
      (r.readFront front rest).failure.isNone = r.fits front := by
  induction front generalizing r with
  | nil =>
      refine ⟨hstate, rfl, ?_⟩
      rw [readFront, hfine.failure, fits_nil hfine]
      rfl
  | cons t front ih =>
      obtain ⟨⟨hline, hopens⟩, hothers⟩ := List.forall_mem_cons.mp hfront
      have hchoose := Matcher.choose_of_not_opens hline hopens (front ++ rest)
      rw [readFront_cons_of_failure hfine.failure]
      cases hstray : t.isStray with
      | false =>
          rw [hstray, if_neg Bool.false_ne_true, ← hstate] at hchoose
          obtain ⟨kind, hkind, read, hchoice⟩ := hchoose
          obtain ⟨hnext, hmatcher, hlimit, herrors, hfailure⟩ :=
            take_of_start hstate hfine.failure hchoice
          have htaken := ih (hnext.trans hstate)
            ⟨hfailure, fun limit hmem => by
              rw [herrors]
              exact hfine.room limit (hlimit ▸ hmem)⟩
            (by rw [hmatcher]; exact hothers)
          rw [htaken.2.2, hmatcher] at *
          refine ⟨htaken.1, htaken.2.1, ?_⟩
          rw [fits, fits, hlimit, herrors, List.countP_cons_of_neg (by simp [hstray])]
      | true =>
          rw [hstray, if_pos rfl, ← hstate] at hchoose
          have hcount := List.countP_cons_of_pos (p := Token.isStray) (l := front) hstray
          by_cases hroom : r.HasRoom [r.state.refusal t]
          · have htake : r.take t (front ++ rest) =
                { r with errors := r.errors ++ [r.state.refusal t] } := by
              rw [take, choice, hchoose]
              exact (reject_eq r t).trans (addError_of_room hroom)
            have htaken := ih (r := { r with errors := r.errors ++ [r.state.refusal t] }) hstate
              ⟨hfine.failure, fun limit hmem => by
                rw [List.append_nil]
                exact hroom limit hmem⟩ hothers
            rw [htake]
            refine ⟨htaken.1, htaken.2.1, ?_⟩
            rw [htaken.2.2, fits, fits, hcount, List.length_append, List.length_singleton,
              Nat.add_assoc, Nat.add_comm 1]
          · obtain ⟨hkept, hmatcher⟩ := take_of_choice_eq_none hchoose
            have hfailed : (r.take t (front ++ rest)).failure.isSome := by
              by_contra hnone
              exact hroom (take_refused hchoose (by simpa using hnone)).1
            rw [readFront_of_failure hfailed]
            refine ⟨hkept.trans hstate, hmatcher, ?_⟩
            obtain ⟨failure, hfailure⟩ := Option.isSome_iff_exists.mp hfailed
            rw [hfailure, fits_cons_of_full hstray hroom]
            rfl

/-- A pragma behind such lines is read as one, so that its language is the only one that the rest
of the document can be read in. -/
theorem readFront_pragma (hstate : r.state = .start) (hfine : r.Fine)
    (hfront : ∀ t ∈ front, t.isEof = false ∧ t.opens r.matcher.dialect = false)
    (hfits : r.fits front = true) {tag : String} (htag : t.languageTag? = some tag)
    (back : List Token) :
    let behind := r.readFront (front ++ [t]) back
    match r.matcher.resolver.resolve tag ⟨t.number, t.lineIndent + 1⟩ with
    | .error e => behind.failure = some (.dialect e)
    | .ok (dialect, _) =>
      behind.failure = none ∧ behind.state ≠ .start ∧ behind.matcher.dialect = dialect := by
  intro behind
  obtain ⟨hkept, hmatcher, hroom⟩ := readFront_of_not_opens (t :: back) hstate hfine hfront
  rw [hfits, Option.isNone_iff_eq_none] at hroom
  have hbehind : behind = (r.readFront front (t :: back)).take t back := by
    rw [show behind = r.readFront (front ++ [t]) back from rfl, readFront_append,
      List.singleton_append, readFront_cons_of_failure hroom]
    rfl
  have hchoice : (r.readFront front (t :: back)).choice t back =
      r.matcher.choose t back State.start.transitions := by
    rw [choice, hmatcher, hkept]
  have hchoose := Matcher.choose_of_pragma (m := r.matcher) htag back
  rcases hresolve : r.matcher.resolver.resolve tag _ with e | ⟨dialect, resolver⟩ <;>
    rw [hresolve] at hchoose <;> rw [hbehind]
  · rw [take, hchoice.trans hchoose]
  · obtain ⟨u, read, hu, hkind, hchoose⟩ := hchoose
    obtain ⟨hnext, hmatcher', -, -, hfailure⟩ :=
      take_of_start hkept hroom (hchoice.trans hchoose)
    refine ⟨hfailure, ?_, by rw [hmatcher']⟩
    rw [hnext]
    exact (State.next_of_start u hu).2 (by rw [hkind]; decide)

/-! ### Readers whose dialect is settled -/

/-- The reader is not in front of a pragma that could change its dialect: it has failed, or is
behind the start of the document, or the search for a pragma ends with another line. -/
def Settled (r : Reader) (ts : List Token) : Prop :=
  r.failure = none → r.state = .start →
    ∀ t, ts.find? (Token.opens r.matcher.dialect) = some t → t.languageTag? = none

theorem Settled.languageTag?_eq_none (h : r.Settled (t :: ts)) (hfailure : r.failure = none)
    (hstart : r.state = .start) : t.languageTag? = none := by
  by_contra hsome
  obtain ⟨tag, htag⟩ := Option.ne_none_iff_exists'.mp hsome
  exact hsome (h hfailure hstart t (List.find?_cons_of_pos (Token.opens_of_languageTag? htag _)))

theorem Settled.of_append (h : r.Settled (front ++ rest)) : r.Settled front := by
  intro hfailure hstart t ht
  refine h hfailure hstart t ?_
  rw [List.find?_append, ht, Option.some_or]

/-- A dialect that is settled stays so. -/
theorem Settled.take (h : r.Settled (t :: ts)) (hfailure : r.failure = none)
    (following : List Token) : (r.take t following).Settled ts := by
  intro _ hstart
  have hbefore : r.state = .start := by
    by_contra hne
    exact state_take_ne_start hne hstart
  have htag := h.languageTag?_eq_none hfailure hbefore
  rw [dialect_take fun _ => htag]
  cases hopens : t.opens r.matcher.dialect with
  | true =>
      obtain ⟨a, hchoose, hkind⟩ := Matcher.exists_choose_of_opens hopens htag following
      have hchoice : r.choice t following = .ok (some a) := by
        rw [choice, hbefore]
        exact hchoose
      have hmem := List.mem_of_find?_eq_some (Matcher.choose_eq_some hchoose).1
      rw [(take_of_start hbefore hfailure hchoice).1] at hstart
      refine absurd hstart ((State.next_of_start _ hmem).2 fun hgap => ?_)
      revert hkind hgap
      cases a.transition.kind <;> decide
  | false =>
      intro u hu
      exact h hfailure hbefore u (by rw [List.find?_cons, hopens]; exact hu)

/-- A reader whose dialect is settled keeps it, and does not fail for a language. -/
theorem Settled.readFront (h : r.Settled front) :
    (r.readFront front rest).matcher.dialect = r.matcher.dialect ∧
      (r.KnowsLanguage → (r.readFront front rest).KnowsLanguage) := by
  induction front generalizing r with
  | nil => exact ⟨rfl, id⟩
  | cons t front ih =>
      cases hfailure : r.failure with
      | some failure =>
          rw [readFront_of_failure (by rw [hfailure]; rfl)]
          exact ⟨rfl, id⟩
      | none =>
          have htag := h.languageTag?_eq_none hfailure
          obtain ⟨hdialect, hknows⟩ := ih (h.take hfailure (front ++ rest))
          rw [readFront_cons_of_failure hfailure, hdialect, dialect_take htag]
          exact ⟨rfl, fun hr => hknows (hr.take (dialect_of_choice _ htag).1)⟩

/-- A reader in front of a given place. -/
theorem readFront_take_of_le (r : Reader) {front : List Token} (back : List Token) {n : Nat}
    (h : n ≤ front.length) :
    r.readFront ((front ++ back).take n) ((front ++ back).drop n) =
      r.readFront (front.take n) (front.drop n ++ back) := by
  rw [List.take_append_of_le_length h, List.drop_append_of_le_length h]

/-- A reader behind a given place. -/
theorem readFront_take_of_ge (r : Reader) {front : List Token} (back : List Token) {n : Nat}
    (h : front.length ≤ n) :
    r.readFront ((front ++ back).take n) ((front ++ back).drop n) =
      (r.readFront front back).readFront (back.take (n - front.length))
        (back.drop (n - front.length)) := by
  rw [List.take_append, List.drop_append, List.take_of_length_le h, List.drop_of_length_le h,
    List.nil_append, readFront_append, List.take_append_drop]

/-- A line with a keyword that is accepted at the start of a document ends the search for a
pragma, and is not one. -/
theorem opens_of_category? (hstate : r.state = .start) {a : Acceptance}
    (hchoice : r.choice t ts = .ok (some a)) (hkind : a.transition.kind.category?.isSome) :
    t.opens r.matcher.dialect = true ∧ t.languageTag? = none := by
  rw [choice, hstate] at hchoice
  obtain ⟨hfind, hmatch⟩ := Matcher.choose_eq_some hchoice
  have htitle := State.kind_of_category?_start _ (List.mem_of_find?_eq_some hfind) hkind
  constructor
  · rw [htitle] at hmatch
    rw [Matcher.opens_eq, Bool.or_eq_true]
    right
    by_contra hof
    rw [Matcher.matchAs_of_isOf_eq_false (by simpa using hof)] at hmatch
    cases hmatch
  · by_contra hsome
    obtain ⟨tag, htag⟩ := Option.ne_none_iff_exists'.mp hsome
    have hpragma := Matcher.choose_of_pragma (m := r.matcher) htag ts
    rw [hchoice] at hpragma
    split at hpragma
    · cases hpragma
    · obtain ⟨u, read, -, hlanguage, hsame⟩ := hpragma
      cases hsame
      rw [htitle] at hlanguage
      cases hlanguage

/-! ### Pragmas are not skipped -/

/-- Where a document has not ended a pragma is accepted, if only as a comment or as free text. -/
theorem languageTag?_of_refused (hstate : r.state ≠ .finished) (h : r.choice t ts = .ok none) :
    t.languageTag? = none := by
  cases hline : t.line with
  | none => rw [Token.languageTag?, hline, Option.bind_none]
  | some l =>
      have hrefused {kind : TokenKind} (hkind : kind ∈ r.state.expected)
          (hplain : kind ≠ .language) : r.matcher.isOf kind t = false := by
        rw [← Bool.not_eq_true]
        intro hof
        obtain ⟨next, read, hsome⟩ := Matcher.exists_matchAs_of_isOf hof hplain
        have hmatch := matchAs_of_refused h kind hkind
        rw [hsome] at hmatch
        cases hmatch
      rw [Token.languageTag?, hline, Option.bind_some]
      apply Line.languageTag?_eq_none
      rcases State.comment_or_other_mem_expected hstate with hkind | hkind
      · have hcomment := hrefused hkind (by decide)
        rw [Matcher.isOf, hline, Matcher.content?, Matcher.lineContent?] at hcomment
        simpa using hcomment
      · have hother := hrefused hkind (by decide)
        rw [Matcher.isOf, hline] at hother
        cases hother

theorem mem_unexpectedLines_take (hstate : r.state ≠ .finished) {n : Nat}
    (h : n ∈ unexpectedLines (r.take t ts).errors) :
    n ∈ unexpectedLines r.errors ∨ t.number = n ∧ t.languageTag? = none := by
  rcases hchoice : r.choice t ts with e | _ | a
  · rw [take, hchoice] at h
    exact .inl h
  · rw [take, hchoice] at h
    simp only [reject_eq] at h
    rw [errors_addError, unexpectedLines_append, List.mem_append] at h
    refine h.imp_right fun h => ⟨?_, languageTag?_of_refused hstate hchoice⟩
    obtain ⟨e, he, rfl⟩ := List.mem_map.mp h
    rw [List.mem_singleton.mp (List.mem_of_mem_filter he), State.line_refusal]
  · rw [unexpectedLines_take_of_choice hchoice] at h
    exact .inl h

/-- None of the lines that are unexpected tokens is a pragma. -/
theorem mem_unexpectedLines_readFront (rest : List Token) (hstate : r.state ≠ .finished)
    (hfront : ∀ t ∈ front, t.isEof = false) :
    (r.readFront front rest).state ≠ .finished ∧
      ∀ n ∈ unexpectedLines (r.readFront front rest).errors,
        n ∈ unexpectedLines r.errors ∨ ∃ t ∈ front, t.number = n ∧ t.languageTag? = none := by
  induction front generalizing r with
  | nil => exact ⟨hstate, fun n hn => .inl hn⟩
  | cons t front ih =>
      rw [readFront]
      split
      · exact ⟨hstate, fun n hn => .inl hn⟩
      · obtain ⟨hline, hothers⟩ := List.forall_mem_cons.mp hfront
        obtain ⟨hbehind, hlines⟩ := ih (state_take_ne_finished hstate hline) hothers
        refine ⟨hbehind, fun n hn => ?_⟩
        rcases hlines n hn with hn | ⟨u, hu, hnumber⟩
        · exact (mem_unexpectedLines_take hstate hn).imp_right
            fun hfirst => ⟨t, List.mem_cons_self, hfirst⟩
        · exact .inr ⟨u, List.mem_cons_of_mem _ hu, hnumber⟩

theorem mem_unexpectedLines_complete (hstate : r.state ≠ .finished)
    (hfront : ∀ t ∈ front, t.isEof = false) {n last : Nat}
    (h : n ∈ unexpectedLines (r.complete (front ++ [.eof last])).errors) :
    n ∈ unexpectedLines r.errors ∨
      ∃ t ∈ front ++ [.eof last], t.number = n ∧ t.languageTag? = none := by
  obtain ⟨hbehind, hlines⟩ := mem_unexpectedLines_readFront [.eof last] hstate hfront
  rw [complete, unexpectedLines_closeRule, read_append, read] at h
  have hfront {n : Nat} (hn : n ∈ unexpectedLines (r.readFront front [.eof last]).errors) :
      n ∈ unexpectedLines r.errors ∨
        ∃ t ∈ front ++ [.eof last], t.number = n ∧ t.languageTag? = none := by
    rcases hlines n hn with hearlier | ⟨t, ht, hnumber⟩
    · exact .inl hearlier
    · exact .inr ⟨t, List.mem_append_left _ ht, hnumber⟩
  split at h
  · exact hfront h
  · rcases mem_unexpectedLines_take hbehind h with h | hlast
    · exact hfront h
    · exact .inr ⟨_, List.mem_append_right _ List.mem_cons_self, hlast⟩

end Reader

end Gherkin
