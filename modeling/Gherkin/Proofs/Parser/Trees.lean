import Gherkin.Proofs.Reader.Drafts
import Gherkin.Proofs.Reader.Transparency

/-!
# The tree of a document

When a parser has read a document, the tokens that it has accepted are the
lines of a syntax tree, apart from blank lines and comments, and the document
is the document of that tree.
-/

namespace Gherkin

namespace Parser

/-- The tokens as a parser has accepted them, in order. -/
def accepted (p : Parser) (source : Source) : List Token :=
  (p.acceptances source).map Acceptance.token

/-- A document that has been read is the document of a tree, whose lines are the
tokens that have been accepted, and every line has been accepted. -/
theorem exists_tree {p : Parser} {lines : List (List Char)} {document : Document}
    (h : p.parse (.ofLines lines) = .ok document) :
    ∃ t, document = Tree.document t ∧
      Tree.lines t = leavesOf [] (p.accepted (.ofLines lines)) ∧
      (p.accepted (.ofLines lines)).map Token.fresh = Source.tokens 0 (.ofLines lines) := by
  have hreads := p.readsAs_ofLines lines
  have houtcome : (p.report (.ofLines lines)).outcome = .ok document := h
  rw [accepted, List.map_map]
  cases hreader : p.reader with
  | error e =>
      rw [hreader] at hreads
      rw [hreads.1] at houtcome
      cases houtcome
  | ok r =>
      rw [hreader] at hreads
      obtain ⟨hsame, -, hacceptances⟩ := hreads
      obtain ⟨matcher, rfl⟩ := exists_start_of_reader hreader
      obtain ⟨ts, n, hts⟩ := Source.exists_tokens_eq 0 lines
      rw [hsame, hts] at houtcome
      obtain ⟨t, ht, hlines, htokens⟩ := Reader.exists_tree_of_outcome houtcome
      rw [hacceptances, hts]
      refine ⟨t, ht, hlines, ?_⟩
      rw [← hts, Source.fresh_tokens, hts] at htokens
      exact htokens

end Parser
end Gherkin
