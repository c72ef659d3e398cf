import Gherkin.Proofs.Parser.Recovery
import Gherkin.Proofs.Parser.Trees

/-!
# Parsing with stray lines

Lines that fit nowhere can be inserted into a document.  Each of them costs one
error, at its own place, and no other line is read in another way, as long as
the inserted lines do not decide where tags belong: a tag line of an outline
that has seen examples must still see them, and one that has not must not.
-/

namespace Gherkin

/-- A line of an enlarged source: one of the source itself, or one that has been
inserted. -/
inductive Patched where
  | own (line : Line)
  | extra (line : Line)

namespace Patched

/-- The line, wherever it comes from. -/
def line : Patched → Line
  | own l | extra l => l

/-- The line, if it is one of the source itself. -/
def own? : Patched → Option Line
  | own l => some l
  | extra _ => none

/-- The numbers of the inserted lines behind the first `number` lines. -/
def extraNumbers (number : Nat) : List Patched → List Nat
  | [] => []
  | own _ :: lines => extraNumbers (number + 1) lines
  | extra _ :: lines => (number + 1) :: extraNumbers (number + 1) lines

theorem lt_of_mem_extraNumbers {number n : Nat} {lines : List Patched}
    (h : n ∈ extraNumbers number lines) : number < n := by
  induction lines generalizing number with
  | nil => cases h
  | cons l lines ih =>
      cases l with
      | own l => exact Nat.lt_of_succ_lt (ih h)
      | extra l =>
          rcases List.mem_cons.mp h with rfl | h
          · exact Nat.lt_succ_self number
          · exact Nat.lt_of_succ_lt (ih h)

end Patched

/-- The tokens of lines that stand behind the first `number` lines of a source, up to
its end. -/
def Token.ofLines (number : Nat) : List Line → List Token
  | [] => [.eof (number + 1)]
  | l :: ls => .ofLine l (number + 1) :: Token.ofLines (number + 1) ls

theorem Source.tokens_eq_ofLines (number : Nat) (lines : List (List Char)) :
    tokens number (ofLines lines) =
      Token.ofLines number ((tokens number (ofLines lines)).filterMap Token.line) := by
  induction lines generalizing number with
  | nil => rfl
  | cons chars lines ih => exact congrArg (List.cons _) (ih (number + 1))

namespace Run

/-- Each inserted line is of none of the kinds that the run expects when it comes to
the place of the line. -/
def refuses (r : Run) : List Patched → Bool
  | [] => true
  | .own _ :: lines => r.step.refuses lines
  | .extra l :: lines =>
    (r.state.expected.all fun kind => !r.matcher.isOf kind (.ofLine l 0)) && r.refuses lines

/-- No tag line changes its owner: where a tag line may belong to examples, these come
first behind it with the inserted lines if and only if they do without them. -/
def keepsOwners (r : Run) : List Patched → Bool
  | [] => true
  | .own l :: lines =>
    (!(r.state.looksAhead && r.matcher.isOf .tagLine (.ofLine l 0)) ||
        r.matcher.examplesAhead (Token.ofLines 0 (lines.map Patched.line)) =
          r.matcher.examplesAhead (Token.ofLines 0 (lines.filterMap Patched.own?))) &&
      r.step.keepsOwners lines
  | .extra _ :: lines => r.keepsOwners lines

end Run

theorem Matcher.examplesAhead_ofLines (m : Matcher) (number number' : Nat) (ls : List Line) :
    m.examplesAhead (Token.ofLines number ls) = m.examplesAhead (Token.ofLines number' ls) := by
  induction ls generalizing number number' with
  | nil => rfl
  | cons l ls ih =>
      rw [Token.ofLines, Token.ofLines, examplesAhead, examplesAhead, ih (number + 1) (number' + 1)]
      rfl

namespace Reader

variable {f : Nat → Nat} {r r' : Reader} {t : Token} {ts ts' : List Token}

/-- A token that one of two alike readers takes without errors is taken by the other
one, too. -/
theorem Alike.take_of_errors (h : r.Alike f r')
    (hahead : r.state.looksAhead = true → r.matcher.isOf .tagLine t = true →
      r.matcher.examplesAhead ts' = r.matcher.examplesAhead ts)
    (herrors : (r'.take (t.renumber f) ts').errors = [])
    (hfine : (r'.take (t.renumber f) ts').failure = none) :
    (r.take t ts).Alike f (r'.take (t.renumber f) ts') ∧ r.skips t ts = false ∧
      (r.take t ts).errors = r.errors ∧ (r.take t ts).limit = r.limit := by
  obtain ⟨a', -, hchoice', -⟩ := Reader.take_of_errors h.failure herrors hfine
  have hadded := (h.fine'.takes hfine).errors
  have hchoose := h.choice t ts ts' hahead
  rw [hchoice'] at hchoose
  rcases hchoice : r.choice t ts with e | _ | a
  · rw [hchoice] at hchoose
    cases hchoose
  · rw [hchoice] at hchoose
    cases hchoose
  · rw [hchoice] at hchoose
    obtain rfl : a' = a.renumber f := Option.some.inj (Option.some.inj hchoose)
    have hnone : r.closingErrors a.transition.closes = [] := by
      rw [herrors, takenErrors, hchoice'] at hadded
      have hclosing : r'.closingErrors a.transition.closes = [] :=
        (List.append_eq_nil_iff.mp hadded.symm).2
      rw [h.closingErrors] at hclosing
      exact List.map_eq_nil_iff.mp hclosing
    have halike := h.take_of_accepted hchoice hchoice' (by rw [hnone]; exact h.fine.room)
    have htakes := h.fine.takes halike.fine.failure
    refine ⟨halike, skips_eq_false_of_choice hchoice, ?_, htakes.limit⟩
    rw [htakes.errors, takenErrors, hchoice]
    exact (congrArg (r.errors ++ ·) hnone).trans (List.append_nil _)

/-- Closing a rule without an error is closing it without an error in the other one of
two alike readers, too. -/
theorem Alike.closeRule_of_errors (h : r.Alike f r') (herrors : r'.closeRule.errors = [])
    (hfine : r'.closeRule.failure = none) : r.closeRule.Alike f r'.closeRule := by
  obtain ⟨hcloses, hroom⟩ := closeRule_closes h.fine'
  have hadded := (hcloses (hroom hfine)).errors
  rw [herrors, h.closingErrors] at hadded
  have hnone := List.map_eq_nil_iff.mp (List.append_eq_nil_iff.mp hadded.symm).2
  refine h.closeRules (n := 1) ?_
  rw [hnone]
  exact h.fine.room

theorem outcome_of_errors (hfine : r.failure = none) (h : r.errors ≠ []) :
    r.outcome = .error (.parse r.errors) := by
  simp only [outcome, hfine]
  exact if_neg (by simpa using h)

/-- Errors that leave nothing are the errors of lines that have been skipped. -/
theorem isUnexpectedToken_of_remaining {errors : List SyntaxError}
    (h : remaining f errors = []) : ∀ e ∈ errors, e.isUnexpectedToken = true := by
  rw [remaining, List.map_eq_nil_iff, List.filter_eq_nil_iff] at h
  intro e he
  simpa using h e he

end Reader

namespace Run

theorem refuses_choice {r : Run} {l : Line} {R : Reader} (hstate : R.state = r.state)
    (hmatcher : R.matcher = r.matcher)
    (h : (r.state.expected.all fun kind => !r.matcher.isOf kind (.ofLine l 0)) = true)
    (number : Nat) (ts : List Token) : R.choice (.ofLine l number) ts = .ok none := by
  apply Matcher.choose_eq_none
  intro u hu
  rw [hstate] at hu
  have hkind : u.kind ∈ r.state.expected := by
    rw [State.expected, List.mem_eraseDups]
    exact List.mem_map_of_mem hu
  have hof := List.all_eq_true.mp h u.kind hkind
  rw [Bool.not_eq_true'] at hof
  rw [hmatcher]
  exact hof

/-- A reader of the enlarged source stays alike to the run over the source itself. -/
structure Follows (R : Reader) (r : Run) (deleted : List Nat) (number number' : Nat)
    (lines : List Patched) : Prop where
  alike : R.Alike (numberAfter deleted) r.reader
  isOver : r.isOver = false
  awaits : r.Awaits (Token.ofLines number (lines.filterMap Patched.own?))
  number : numberAfter deleted (number' + 1) = number + 1
  extra : ∀ n, number' < n → (n ∈ deleted ↔ n ∈ Patched.extraNumbers number' lines)
  room : ∀ limit ∈ R.limit,
    R.errors.length + (Patched.extraNumbers number' lines).length ≤ limit
  refuses : r.refuses lines = true
  keepsOwners : r.keepsOwners lines = true

namespace Follows

variable {R : Reader} {r : Run} {deleted : List Nat} {number number' : Nat} {l : Line}
  {lines : List Patched}

/-- In front of the first line neither has seen anything. -/
theorem start {limit : Option Nat} {m : Matcher} (hsame : r.reader = .start limit m)
    (hended : r.ended = false)
    (hawaits : r.Awaits (Token.ofLines 0 (lines.filterMap Patched.own?)))
    (hlimit : ∀ most ∈ limit, (Patched.extraNumbers 0 lines).length ≤ most)
    (hrefuses : r.refuses lines = true) (howners : r.keepsOwners lines = true) :
    Follows (.start limit m) r (Patched.extraNumbers 0 lines) 0 0 lines where
  alike := by
    rw [hsame]
    exact Reader.start_alike _ limit m
  isOver := by
    have hfailure : r.failure = none := congrArg Reader.failure hsame
    rw [Run.isOver, hfailure, hended]
    rfl
  awaits := hawaits
  number := by
    apply numberAfter_one
    intro hzero
    exact Nat.lt_irrefl 0 (Patched.lt_of_mem_extraNumbers hzero)
  extra _ _ := Iff.rfl
  room most hmem := by
    rw [show (Reader.start limit m).errors = [] from rfl, List.length_nil, Nat.zero_add]
    exact hlimit most hmem
  refuses := hrefuses
  keepsOwners := howners

/-- An inserted line is skipped, and the run over the source itself does not see it. -/
theorem extra_line (h : Follows R r deleted number number' (.extra l :: lines)) :
    let t := Token.ofLine l (number' + 1)
    let ts := Token.ofLines (number' + 1) (lines.map Patched.line)
    Follows (R.take t ts) r deleted number (number' + 1) lines ∧ R.skips t ts = true := by
  intro t ts
  obtain ⟨hexpected, hrefuses⟩ := Bool.and_eq_true_iff.mp h.refuses
  have hchoice : R.choice t ts = .ok none :=
    refuses_choice h.alike.state.symm h.alike.matcher.symm hexpected _ _
  have hnumbers : Patched.extraNumbers number' (.extra l :: lines) =
      (number' + 1) :: Patched.extraNumbers (number' + 1) lines := rfl
  have hroom : R.HasRoom [R.state.refusal t] := by
    intro limit hlimit
    have hle := h.room limit hlimit
    rw [hnumbers, List.length_cons] at hle
    rw [List.length_append, List.length_singleton]
    omega
  have halike := h.alike.take_of_skipped hchoice rfl hroom
  have htakes := h.alike.fine.takes halike.fine.failure
  have hdeleted : number' + 1 ∈ deleted :=
    (h.extra _ (Nat.lt_succ_self _)).mpr (by rw [hnumbers]; exact List.mem_cons_self)
  refine ⟨⟨halike, h.isOver, h.awaits, ?_, ?_, ?_, hrefuses, h.keepsOwners⟩,
    Reader.skips_iff.mpr ⟨rfl, hchoice⟩⟩
  · rw [numberAfter_succ, if_pos hdeleted]
    exact h.number
  · intro n hn
    rw [h.extra n (by omega), hnumbers, List.mem_cons]
    constructor
    · rintro (rfl | hmem)
      · omega
      · exact hmem
    · exact .inr
  · intro limit hmem
    rw [htakes.limit] at hmem
    have hle := h.room limit hmem
    rw [hnumbers, List.length_cons] at hle
    rw [htakes.errors, Reader.takenErrors, hchoice, List.length_append, List.length_singleton]
    omega

/-- A line of the source itself is taken by both, as long as the run finds no error. -/
theorem own_line (h : Follows R r deleted number number' (.own l :: lines))
    (herrors : r.step.errors = []) (hfine : r.step.failure = none) :
    let t := Token.ofLine l (number' + 1)
    let ts := Token.ofLines (number' + 1) (lines.map Patched.line)
    Follows (R.take t ts) r.step deleted (number + 1) (number' + 1) lines ∧
      R.skips t ts = false := by
  intro t ts
  let t' := Token.ofLine l (number + 1)
  let ts' := Token.ofLines (number + 1) (lines.filterMap Patched.own?)
  have hsteps : r.StepsAs t' ts' := stepsAs h.isOver h.awaits
  obtain ⟨howner, hothers⟩ := Bool.and_eq_true_iff.mp h.keepsOwners
  have hrenumber : t.renumber (numberAfter deleted) = t' := by
    change Token.mk _ (numberAfter deleted (number' + 1)) _ = _
    rw [h.number]
    rfl
  have hahead : R.state.looksAhead = true → R.matcher.isOf .tagLine t = true →
      R.matcher.examplesAhead ts' = R.matcher.examplesAhead ts := by
    intro hlook htag
    have hstate : r.state = R.state := h.alike.state
    have hmatcher : r.matcher = R.matcher := h.alike.matcher
    have htag : R.matcher.isOf .tagLine (.ofLine l 0) = true := htag
    rw [hstate, hmatcher, hlook, htag, Bool.true_and, Bool.not_true, Bool.false_or,
      decide_eq_true_iff] at howner
    rw [Matcher.examplesAhead_ofLines _ _ 0, Matcher.examplesAhead_ofLines _ (number' + 1) 0,
      howner]
  have htaken : r.step.reader = r.reader.take (t.renumber (numberAfter deleted)) ts' := by
    rw [hrenumber, hsteps.reader]
  obtain ⟨halike, hskips, hsame, hlimit⟩ := h.alike.take_of_errors hahead
    (htaken ▸ herrors) (htaken ▸ hfine)
  have hnumbers : Patched.extraNumbers number' (.own l :: lines) =
      Patched.extraNumbers (number' + 1) lines := rfl
  have hdeleted : number' + 1 ∉ deleted := by
    intro hmem
    have hextra := (h.extra _ (Nat.lt_succ_self _)).mp hmem
    rw [hnumbers] at hextra
    exact Nat.lt_irrefl _ (Patched.lt_of_mem_extraNumbers hextra)
  rw [← htaken] at halike
  refine ⟨⟨halike, ?_, hsteps.awaits, ?_, ?_, ?_, h.refuses, hothers⟩, hskips⟩
  · rw [Run.isOver, hfine, hsteps.ended]
    rfl
  · rw [numberAfter_succ, if_neg hdeleted, h.number]
  · intro n hn
    rw [h.extra n (by omega), hnumbers]
  · intro limit hmem
    rw [hlimit] at hmem
    rw [hsame]
    exact h.room limit hmem

/-- The reader of the enlarged source stays alike to that of the source itself, and
skips the inserted lines. -/
theorem read (h : Follows R r deleted number number' lines) :
    let own := Token.ofLines number (lines.filterMap Patched.own?)
    let all := Token.ofLines number' (lines.map Patched.line)
    (r.reader.read own).errors = [] → (r.reader.read own).failure = none →
      (R.read all).Alike (numberAfter deleted) (r.reader.read own) ∧
        (R.skipped all).map Token.number = Patched.extraNumbers number' lines := by
  intro own all herrors hfine
  induction lines generalizing R r number number' with
  | nil =>
      have hrenumber : (Token.eof (number' + 1)).renumber (numberAfter deleted) =
          .eof (number + 1) := by
        rw [← h.number]
        rfl
      have hown : r.reader.read own = r.reader.take (.eof (number + 1)) [] :=
        Reader.read_cons_of_failure h.alike.failure _ _
      have hall : R.read all = R.take (.eof (number' + 1)) [] :=
        Reader.read_cons_of_failure h.alike.fine.failure _ _
      rw [hown, ← hrenumber] at herrors hfine
      obtain ⟨halike, hskips, -, -⟩ := h.alike.take_of_errors (fun _ _ => rfl) herrors hfine
      rw [hall, hown, ← hrenumber]
      refine ⟨halike, ?_⟩
      have hskipped : R.skipped all = [] := Reader.skipped_cons_of_not_skips hskips
      rw [hskipped]
      rfl
  | cons line lines ih =>
      cases line with
      | own l =>
          let t := Token.ofLine l (number' + 1)
          let ts := Token.ofLines (number' + 1) (lines.map Patched.line)
          let ts' := Token.ofLines (number + 1) (lines.filterMap Patched.own?)
          have hstep := stepsAs h.isOver h.awaits
          have hown : r.reader.read own = r.step.reader.read ts' := by
            rw [hstep.reader]
            exact Reader.read_cons_of_failure h.alike.failure _ _
          have hall : R.read all = (R.take t ts).read ts :=
            Reader.read_cons_of_failure h.alike.fine.failure _ _
          rw [hown] at herrors hfine
          obtain ⟨hfollows, hskips⟩ :=
            h.own_line (Reader.errors_read herrors) (Reader.failure_read hfine)
          obtain ⟨halike, hskipped⟩ := ih hfollows herrors hfine
          have hnone : R.skipped all = (R.take t ts).skipped ts :=
            Reader.skipped_cons_of_not_skips hskips
          rw [hall, hown, hnone]
          exact ⟨halike, hskipped⟩
      | extra l =>
          let t := Token.ofLine l (number' + 1)
          let ts := Token.ofLines (number' + 1) (lines.map Patched.line)
          have hall : R.read all = (R.take t ts).read ts :=
            Reader.read_cons_of_failure h.alike.fine.failure _ _
          obtain ⟨hfollows, hskips⟩ := h.extra_line
          obtain ⟨halike, hskipped⟩ := ih hfollows herrors hfine
          have hone : R.skipped all = t :: (R.take t ts).skipped ts :=
            Reader.skipped_cons_of_skips hskips
          rw [hall, hone, List.map_cons, hskipped]
          exact ⟨halike, rfl⟩

end Follows

end Run

namespace Parser

/-- Each inserted line is of none of the kinds that are expected at its place when the
source is parsed. -/
def refuses (p : Parser) (source : Source) (patched : List Patched) : Bool :=
  match p.run source with
  | .ok start => start.refuses patched
  | .error _ => false

/-- No tag line of the source changes its owner because of inserted lines. -/
def keepsOwners (p : Parser) (source : Source) (patched : List Patched) : Bool :=
  match p.run source with
  | .ok start => start.keepsOwners patched
  | .error _ => false

/-- Every stray line costs exactly one error, as long as no tag line changes its
owner: when lines are inserted into a document, each where the run over the document
itself expects none of its kinds, and not more of them than the limit allows, parsing
fails with one error for each inserted line, at that line, and with no others. -/
theorem parse_patched {p : Parser} {lines lines' : List (List Char)} {patched : List Patched}
    {document : Document}
    (hlines : (Source.tokens 0 (.ofLines lines)).filterMap Token.line =
      patched.filterMap Patched.own?)
    (hlines' : (Source.tokens 0 (.ofLines lines')).filterMap Token.line =
      patched.map Patched.line)
    (hparse : p.parse (.ofLines lines) = .ok document)
    (hextra : Patched.extraNumbers 0 patched ≠ [])
    (hlimit : ∀ limit ∈ p.limit, (Patched.extraNumbers 0 patched).length ≤ limit)
    (hrefuses : p.refuses (.ofLines lines) patched = true)
    (howners : p.keepsOwners (.ofLines lines) patched = true) :
    ∃ errors, p.parse (.ofLines lines') = .error (.parse errors) ∧
      (∀ e ∈ errors, e.isUnexpectedToken = true) ∧
      errors.map (fun e => e.location.line) = Patched.extraNumbers 0 patched := by
  have hrun := p.run_eq (.ofLines lines)
  rw [parse_ofLines, readTokens, Source.tokens_eq_ofLines, hlines] at hparse
  rw [parse_ofLines, readTokens, Source.tokens_eq_ofLines, hlines']
  cases hreader : p.reader with
  | error e =>
      rw [hreader] at hparse
      cases hparse
  | ok reader =>
      rw [hreader] at hrun hparse
      obtain ⟨start, hstart, hsame, hended, hqueue, hscanner⟩ := hrun
      simp only [refuses, keepsOwners, hstart] at hrefuses howners
      obtain ⟨m, rfl⟩ := exists_start_of_reader hreader
      have hawaits : start.Awaits (Token.ofLines 0 (patched.filterMap Patched.own?)) := by
        rw [Run.Awaits, hqueue, hscanner, ← hlines, ← Source.tokens_eq_ofLines]
        exact .scanner (Source.readable_ofLines lines)
      have hfollows := Run.Follows.start hsame hended hawaits hlimit hrefuses howners
      obtain ⟨herrors, hfine, -⟩ := Reader.of_outcome_eq_ok hparse
      rw [← hsame] at herrors hfine
      obtain ⟨hread, hskipped⟩ := hfollows.read (Reader.errors_closeRule herrors)
        (Reader.failure_of_closeRule hfine)
      have halike := hread.closeRule_of_errors herrors hfine
      let all := Token.ofLines 0 (patched.map Patched.line)
      let finished := (Reader.start p.limit m).complete all
      have hunexpected : ∀ e ∈ finished.errors, e.isUnexpectedToken = true :=
        Reader.isUnexpectedToken_of_remaining (halike.errors.symm.trans herrors)
      have hnumbers : finished.errors.map (fun e => e.location.line) =
          Patched.extraNumbers 0 patched := by
        have hlines := Reader.unexpectedLines_complete (Reader.start_fine p.limit m)
          halike.fine.failure
        rw [hskipped] at hlines
        rw [Reader.unexpectedLines, List.filter_eq_self.mpr hunexpected] at hlines
        exact hlines
      have hsome : finished.errors ≠ [] := by
        intro hnone
        rw [hnone] at hnumbers
        exact hextra hnumbers.symm
      exact ⟨finished.errors, Reader.outcome_of_errors halike.fine.failure hsome, hunexpected,
        hnumbers⟩

/-- Stray lines between the rows of a table, in front of a tag line and behind it. -/
theorem parse_patched_table :
    let own (text : String) := Patched.own (.ofString text)
    let extra (text : String) := Patched.extra (.ofString text)
    let patched :=
      [own "Feature: f", own "Scenario Outline: o", own "Given <a>", own "|1|", extra "x",
       own "|2|", extra "Feature: g", own "@t", own "Scenario: s", own "Given b",
       extra "Examples:"]
    ∃ errors, parse {} (.ofLines (patched.map fun line => line.line.chars)) =
        .error (.parse errors) ∧
      (∀ e ∈ errors, e.isUnexpectedToken = true) ∧
      errors.map (fun e => e.location.line) = [5, 7, 11] := by
  intro own extra patched
  let lines := (patched.filterMap Patched.own?).map Line.chars
  have hok : (parse {} (.ofLines lines)).toOption.isSome = true := by decide +kernel
  obtain ⟨document, hdocument⟩ := exists_ok_of_isSome hok
  have hnumbers : Patched.extraNumbers 0 patched = [5, 7, 11] := by decide +kernel
  obtain ⟨errors, herrors, hall, hlines⟩ :=
    @parse_patched {} lines (patched.map fun line => line.line.chars) patched document
      (by decide +kernel) (by decide +kernel) hdocument
      (by rw [hnumbers]; decide) (by rw [hnumbers]; decide) (by decide +kernel)
      (by decide +kernel)
  exact ⟨errors, herrors, hall, hlines.trans hnumbers⟩

/-- A stray line between tags and the title line of examples costs more than one error:
the tags are taken for those of a scenario, so that the title line of the examples fits
no longer.  A stray line in front of a byte order mark does so, too. -/
theorem parse_patched_tags :
    let own (text : String) := Patched.own (.ofString text)
    let extra (text : String) := Patched.extra (.ofString text)
    let patched :=
      [own "Feature: f", own "Scenario Outline: o", own "@t", extra "x", own "Examples:"]
    let lines := (patched.filterMap Patched.own?).map Line.chars
    let marked := [extra "x", own "Feature: f"]
    let markedLine := "\uFEFFFeature: f".toList
    ((∃ document, parse {} (.ofLines lines) = .ok document) ∧
      refuses {} (.ofLines lines) patched = true ∧
      ∃ errors, parse {} (.ofLines (patched.map fun line => line.line.chars)) =
          .error (.parse errors) ∧
        Patched.extraNumbers 0 patched = [4] ∧
        errors.map (fun e => e.location.line) = [4, 5, 6]) ∧
    ((∃ document, parse {} (.ofLines [markedLine]) = .ok document) ∧
      refuses {} (.ofLines [markedLine]) marked = true ∧
      ∃ errors, parse {} (.ofLines ["x".toList, markedLine]) = .error (.parse errors) ∧
        Patched.extraNumbers 0 marked = [1] ∧
        errors.map (fun e => e.location.line) = [1, 2]) := by
  intro own extra patched lines marked markedLine
  have hok : (parse {} (.ofLines lines)).toOption.isSome = true := by decide +kernel
  have hmarked : (parse {} (.ofLines [markedLine])).toOption.isSome = true := by decide +kernel
  obtain ⟨document, hdocument⟩ := exists_ok_of_isSome hok
  obtain ⟨document', hdocument'⟩ := exists_ok_of_isSome hmarked
  let tags := State.definitionTags.expected
  let errors : List SyntaxError :=
    [⟨.unexpectedToken tags "x", ⟨4, 1⟩⟩, ⟨.unexpectedToken tags "Examples:", ⟨5, 1⟩⟩,
     ⟨.unexpectedEof tags, ⟨6, 0⟩⟩]
  let errors' : List SyntaxError :=
    [⟨.unexpectedToken State.start.expected "x", ⟨1, 1⟩⟩,
     ⟨.unexpectedToken State.start.expected "\uFEFFFeature: f", ⟨2, 1⟩⟩]
  refine ⟨⟨⟨document, hdocument⟩, by decide +kernel, errors, by decide +kernel,
    by decide +kernel, rfl⟩, ⟨document', hdocument'⟩, by decide +kernel, errors',
    by decide +kernel, by decide +kernel, rfl⟩

end Parser

end Gherkin
