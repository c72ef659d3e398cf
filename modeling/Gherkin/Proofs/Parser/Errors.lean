import Gherkin.Proofs.Parser.TagRuns
import Gherkin.Proofs.Recovery.Order
import Gherkin.Proofs.Run.DocStrings
import Gherkin.Proofs.Run.Lines

/-!
# The list of errors

A parse that is not cut short accounts for every line.  Each line that has not
been accepted is an unexpected token, at its place and with what was expected
there.  An error of a table stands further up than all errors behind it in the
list, and an unexpected end of the source is the last error.
-/

namespace Gherkin

/-- The run in front of a line, behind a step for each line before it. -/
def Run.inFrontOf (start : Run) (t : Token) : Run :=
  steps (t.number - 1) start

namespace Parser

/-- The lines of a source that a parser does not accept. -/
def refused (p : Parser) (source : Source) : List Token :=
  (Source.tokens 0 source).filter fun t =>
    !t.isEof && decide (t.number ∉ (p.accepted source).map Token.number)

variable {p : Parser} {lines : List (List Char)} {start : Run}

theorem complete_of_run (hstart : p.run (.ofLines lines) = .ok start)
    (hfine : start.complete.failure = none) :
    (start.reader.complete (Source.tokens 0 (.ofLines lines))).failure = none ∧
      start.complete.errors =
        (start.reader.complete (Source.tokens 0 (.ofLines lines))).errors := by
  have hcomplete := (run_readsAs hstart).2
  rw [← hcomplete]
  exact ⟨hfine, rfl⟩

/-- The lines that are not accepted are those that the reader skips. -/
theorem refused_eq (hstart : p.run (.ofLines lines) = .ok start)
    (hfine : start.complete.failure = none) :
    p.refused (.ofLines lines) = start.reader.skipped (Source.tokens 0 (.ofLines lines)) := by
  obtain ⟨hread, -⟩ := complete_of_run hstart hfine
  have haccepted : (p.accepted (.ofLines lines)).map Token.number =
      (start.reader.acceptances (Source.tokens 0 (.ofLines lines))).map fun a =>
        a.token.number := by
    rw [accepted, acceptances_of_run hstart, List.map_map]
    rfl
  rw [refused, haccepted]
  symm
  apply Reader.skipped_eq_filter
  · exact Reader.failure_of_closeRule hread
  · exact Source.pairwise_tokens 0 lines

/-- The run in front of a line that is skipped is where the reader is that skips it. -/
theorem inFrontOf_refusal (hstart : p.run (.ofLines lines) = .ok start)
    (hfine : start.complete.failure = none) {x : Reader × Token}
    (hx : x ∈ start.reader.refusals (Source.tokens 0 (.ofLines lines))) :
    (start.inFrontOf x.2).reader = x.1 ∧ (start.inFrontOf x.2).upcoming = x.2.line ∧
      ∀ kind ∈ x.1.state.expected, x.1.matcher.matchAs kind x.2 = .ok none := by
  obtain ⟨hread, -⟩ := complete_of_run hstart hfine
  have hread := Reader.failure_of_closeRule hread
  obtain ⟨front, back, htokens, hfront, hchoice⟩ := Reader.exists_front_of_mem_refusals hread hx
  obtain ⟨reader, hreader, hsame, hended, hwaits, -⟩ :=
    run_front hstart (List.cons_ne_nil x.2 back) htokens
  obtain rfl := Except.ok.inj (hreader.symm.trans (run_starts hstart).1)
  have hnumber : x.2.number - 1 = front.length := by
    rw [Source.number_of_tokens_eq htokens]
    omega
  rw [Run.inFrontOf, hnumber]
  refine ⟨hsame.trans hfront.symm, ?_, Reader.matchAs_of_refused hchoice⟩
  have hfailure : (Run.steps front.length start).failure = none := by
    rw [htokens, Reader.read_append, ← hsame] at hread
    exact Reader.failure_read hread
  have hover : ¬(Run.steps front.length start).isOver = true := by
    rw [Run.isOver, hfailure, hended]
    exact Bool.false_ne_true
  obtain ⟨fetched, read, hfetches⟩ := Run.exists_fetches (hwaits hfailure)
  rw [Run.upcoming, if_neg hover, hfetches.next, ← hfetches.fresh]
  rfl

/-- The unexpected tokens are the lines that are not accepted, each with its place and with
what was expected there. -/
theorem filter_errors_eq (hstart : p.run (.ofLines lines) = .ok start)
    (hfine : start.complete.failure = none) :
    start.complete.errors.filter SyntaxError.isUnexpectedToken =
      (p.refused (.ofLines lines)).map fun t =>
        ⟨.unexpectedToken (start.inFrontOf t).state.expected t.value,
          ⟨t.number, t.lineIndent + 1⟩⟩ := by
  obtain ⟨hread, herrors⟩ := complete_of_run hstart hfine
  obtain ⟨m, hm⟩ := exists_start_of_reader (run_starts hstart).1
  have hreader : start.reader.Fine ∧ start.reader.errors = [] := by
    rw [hm]
    exact ⟨Reader.start_fine p.limit m, rfl⟩
  rw [herrors, Reader.filter_errors_complete hreader.1 hread, hreader.2, List.filter_nil,
    List.nil_append, refused_eq hstart hfine, ← Reader.map_snd_refusals, List.map_map]
  apply List.map_congr_left
  intro x hx
  have hline : x.2.isEof = false := by
    have hmem := List.mem_map_of_mem (f := Prod.snd) hx
    rw [Reader.map_snd_refusals, ← refused_eq hstart hfine] at hmem
    have hrefused := (List.mem_filter.mp hmem).2
    rw [Bool.and_eq_true, Bool.not_eq_true'] at hrefused
    exact hrefused.1
  obtain ⟨hsame, -, -⟩ := inFrontOf_refusal hstart hfine hx
  rw [Function.comp_apply, x.1.state.refusal_of_line hline, ← hsame]
  rfl

/-- Errors are in order, and one about the end of the source is behind the last line. -/
theorem errors_inOrder (hstart : p.run (.ofLines lines) = .ok start)
    (hfine : start.complete.failure = none) :
    start.complete.errors.Pairwise SyntaxError.Precedes ∧
      ∀ e ∈ start.complete.errors, e.isUnexpectedEof = true →
        e.location = ⟨lines.length + 1, 0⟩ := by
  obtain ⟨hread, herrors⟩ := complete_of_run hstart hfine
  obtain ⟨m, hm⟩ := exists_start_of_reader (run_starts hstart).1
  obtain ⟨front, n, htokens⟩ := Source.exists_tokens_eq 0 lines
  have hlength := Source.length_tokens (Source.readable_ofLines lines) 0
  have hnumber := Source.number_of_tokens_eq htokens
  have hlines := Source.isEof_of_tokens_eq (List.cons_ne_nil _ _) htokens
  have hincreasing := Source.pairwise_tokens 0 lines
  have hpositive : ∀ t ∈ Source.tokens 0 (.ofLines lines), 0 < t.number :=
    fun t ht => Source.lt_number_of_mem_tokens ht
  have hstartOrder : (Reader.start p.limit m).InOrder 0 := by
    constructor
    · exact List.Pairwise.nil
    · exact fun e he => absurd he List.not_mem_nil
    · intro table htable row hrow
      obtain rfl := List.mem_singleton.mp htable
      cases hrow
    · exact fun table htable => absurd htable List.not_mem_nil
    · intro _ table htable
      obtain rfl := List.mem_singleton.mp htable
      rfl
  rw [htokens] at hlength hincreasing hpositive
  rw [hm, htokens, Reader.complete, Reader.read_append] at hread herrors
  have hfront := Reader.failure_read (Reader.failure_of_closeRule hread)
  obtain ⟨hfrontFine, k, horder, hless⟩ :=
    hstartOrder.readFront (Reader.start_fine p.limit m) hincreasing hpositive hlines hfront
  obtain ⟨hprecedes, hends⟩ :=
    horder.complete hfrontFine (hless _ List.mem_cons_self) rfl hread
  have hlast : n = lines.length + 1 := by
    rw [List.length_append, List.length_singleton, Source.ofLines, List.length_map] at hlength
    change n = 0 + front.length + 1 at hnumber
    omega
  rw [herrors]
  refine ⟨hprecedes, fun e he hend => ?_⟩
  rw [← hlast]
  exact hends e he hend

/-- Every line is accounted for in the list of errors. -/
theorem errors_account {source : Source} (hstart : p.run source = .ok start)
    (hfine : start.complete.failure = none) :
    let errors := start.complete.errors
    ((errors = [] → ∃ document, p.parse source = .ok document) ∧
        (errors ≠ [] → p.parse source = .error (.parse errors))) ∧
      errors.filter SyntaxError.isUnexpectedToken =
        (p.refused source).map (fun t =>
          ⟨.unexpectedToken (start.inFrontOf t).state.expected t.value,
            ⟨t.number, t.lineIndent + 1⟩⟩) ∧
      (p.refused source).Pairwise (fun t u => t.number < u.number) ∧
      (∀ t ∈ p.refused source, (start.inFrontOf t).upcoming = t.line ∧
        ∀ kind ∈ (start.inFrontOf t).state.expected,
          (start.inFrontOf t).matcher.matchAs kind t = .ok none) ∧
      (∀ front e back, errors = front ++ e :: back → e.isUnexpectedEof = true →
        back = [] ∧ e.location = ⟨source.length + 1, 0⟩) ∧
      errors.Pairwise fun e f => e.isUneven = true → e.location.line < f.location.line := by
  intro errors
  obtain ⟨lines, rfl⟩ := exists_lines_of_complete hstart hfine
  obtain ⟨hprecedes, hends⟩ := errors_inOrder hstart hfine
  refine ⟨?_, filter_errors_eq hstart hfine, ?_, ?_, ?_, ?_⟩
  · have hparse : p.parse (.ofLines lines) = start.complete.outcome := by
      rw [parse, report_outcome, hstart]
    rw [hparse, Run.outcome, hfine]
    constructor
    · intro hnone
      exact ⟨_, if_pos (List.isEmpty_iff.mpr hnone)⟩
    · intro hsome
      exact if_neg (by simpa using hsome)
  · exact (Source.pairwise_tokens 0 lines).filter _
  · intro t ht
    rw [refused_eq hstart hfine, ← Reader.map_snd_refusals] at ht
    obtain ⟨x, hx, rfl⟩ := List.mem_map.mp ht
    obtain ⟨hsame, hupcoming, hkinds⟩ := inFrontOf_refusal hstart hfine hx
    rw [← hsame] at hkinds
    exact ⟨hupcoming, hkinds⟩
  · intro front e back hsplit hend
    change start.complete.errors = front ++ e :: back at hsplit
    have he : e ∈ start.complete.errors := by
      rw [hsplit]
      exact List.mem_append_right _ List.mem_cons_self
    constructor
    · rw [hsplit] at hprecedes
      have hback := (List.pairwise_cons.mp (List.pairwise_append.mp hprecedes).2.1).1
      apply List.eq_nil_iff_forall_not_mem.mpr
      intro f hf
      rw [(hback f hf).1] at hend
      cases hend
    · rw [hends e he hend, Source.ofLines, List.length_map]
  · exact hprecedes.imp And.right

/-- Two stray lines, one inside of an uneven table and one behind a tag line that has looked
ahead, and tags at the end. -/
theorem errors_account_tags :
    let lines := ["Feature: f", "Scenario Outline: o", "Given <a>", "|1|2|", "  x ", "|3|", "@t",
      "y"].map String.toList
    ∃ errors, parse {} (.ofLines lines) = .error (.parse errors) ∧
      errors.filter SyntaxError.isUnexpectedToken =
        [⟨.unexpectedToken (State.steps .outline .dataTable).expected "x", ⟨5, 3⟩⟩,
          ⟨.unexpectedToken State.definitionTags.expected "y", ⟨8, 1⟩⟩] ∧
      errors.Pairwise fun e f => e.isUneven = true → e.location.line < f.location.line := by
  intro lines
  let expected : List SyntaxError :=
    [⟨.unexpectedToken (State.steps .outline .dataTable).expected "x", ⟨5, 3⟩⟩,
      ⟨.unexpectedToken State.definitionTags.expected "y", ⟨8, 1⟩⟩]
  have hrun : (Parser.run {} (.ofLines lines)).toOption.any (fun start =>
      start.complete.failure.isNone &&
        decide ((refused {} (.ofLines lines)).map (fun t =>
          ⟨.unexpectedToken (start.inFrontOf t).state.expected t.value,
            ⟨t.number, t.lineIndent + 1⟩⟩) = expected)) = true := by
    decide +kernel
  obtain ⟨start, hstart, hrun⟩ := exists_ok_of_any hrun
  simp only [Bool.and_eq_true, decide_eq_true_eq, Option.isNone_iff_eq_none] at hrun
  obtain ⟨⟨-, hparse⟩, hfilter, -, -, -, horder⟩ := errors_account hstart hrun.1
  have hfilter := hfilter.trans hrun.2
  have hsome : start.complete.errors ≠ [] := by
    intro hnone
    rw [hnone] at hfilter
    exact absurd hfilter.symm (List.cons_ne_nil _ _)
  exact ⟨start.complete.errors, hparse hsome, hfilter, horder⟩

end Parser
end Gherkin
