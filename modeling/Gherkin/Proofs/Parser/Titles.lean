import Gherkin.Proofs.Parser.Dialects
import Gherkin.Proofs.Parser.TagRuns
import Gherkin.Proofs.Reader.Titles

/-!
# Title lines in a document

A title line outside doc strings is read as a title line wherever its kind is
expected.  Where it is not, it becomes free text of a description, if there is
room for one, and otherwise makes the document fail.
-/

namespace Gherkin

namespace Parser

variable {p : Parser} {lines : List (List Char)} {start : Run} {front back : List Token}
  {t : Token}

/-- What is known of every place of a source. -/
structure Place (start : Run) (front : List Token) (t : Token) (back : List Token) : Prop where
  reader : (Run.steps front.length start).reader = start.reader.readFront front (t :: back)
  tells : (start.reader.readFront front (t :: back)).matcher.TellsTitles
  agrees : (start.reader.readFront front (t :: back)).Agrees

theorem place (hp : p.resolver.IsBuiltin) (hstart : p.run (.ofLines lines) = .ok start)
    (htokens : Source.tokens 0 (.ofLines lines) = front ++ t :: back) :
    Place start front t back := by
  have hreader := (Run.steps_front (run_starts hstart).2.1 (htokens ▸ run_awaits hstart)
    (Source.isEof_of_tokens_eq (List.cons_ne_nil t back) htokens)).1
  refine ⟨hreader, ?_, ?_⟩
  · rw [← hreader]
    exact tellsTitles_of_front hp hstart (List.cons_ne_nil t back) htokens
  · rw [← hreader]
    exact (outside_run hstart).2.steps front.length

/-- What is chosen at a place has been accepted. -/
theorem Place.accepts (h : Place start front t back) (hstart : p.run (.ofLines lines) = .ok start)
    (htokens : Source.tokens 0 (.ofLines lines) = front ++ t :: back)
    (hfailure : (Run.steps front.length start).failure = none) {a : Acceptance}
    (hchoice : (Run.steps front.length start).reader.choice t back = .ok (some a)) :
    a ∈ p.acceptances (.ofLines lines) ∧ a.token.number = t.number := by
  have hfine : (start.reader.readFront front (t :: back)).failure = none := by
    rw [← h.reader]
    exact hfailure
  rw [h.reader] at hchoice
  rw [acceptances_of_run hstart, htokens]
  exact ⟨Reader.mem_acceptances_of_choice hfine hchoice, Reader.number_of_choice hchoice⟩

end Parser
end Gherkin
