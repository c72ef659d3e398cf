import Gherkin.Proofs.Realisation.Starts

/-!
# Lines with keywords

Title lines and step lines start with a keyword of the active dialect.  What
follows it is the title or the text of the step.
-/

namespace Gherkin

namespace TokenKind

/-- The kind of the keywords that lines of a kind start with. -/
def category? : TokenKind → Option KeywordKind
  | stepLine => some .step
  | kind => kind.keywordKind?

/-- What stands between the keyword and the text of a line. -/
def mark : TokenKind → List Char
  | stepLine => []
  | _ => [':']

theorem category?_cases {kind : TokenKind} {category : KeywordKind}
    (h : kind.category? = some category) :
    kind = .stepLine ∧ category = .step ∨ kind ≠ .stepLine ∧ kind.keywordKind? = some category := by
  cases kind with
  | stepLine => exact .inl ⟨rfl, (Option.some.inj h).symm⟩
  | _ => exact .inr ⟨by decide, h⟩

theorem mark_of_ne {kind : TokenKind} (h : kind ≠ .stepLine) : kind.mark = [':'] := by
  cases kind with
  | stepLine => exact absurd rfl h
  | _ => rfl

theorem ne_language_of_category? {kind : TokenKind} {category : KeywordKind}
    (h : kind.category? = some category) : kind ≠ .language := by
  rintro rfl
  cases h

end TokenKind

/-- A line starts with a keyword behind its leading blanks, and what follows is its text. -/
structure Content.FollowsKeyword (content : Content) (kind : TokenKind) (keyword : String)
    (l : Line) : Prop where
  opening : content.keyword = some keyword
  indent : content.indent = l.indent
  text : ∃ rest, l.after? keyword = some (kind.mark ++ rest) ∧
    content.text = some (String.ofList (Text.trim rest))

namespace Matcher

variable {m : Matcher} {l : Line} {content : Content}

theorem exists_keyword_of_title?_eq_some {k : KeywordKind} (h : m.title? k l = some content)
    {kind : TokenKind} (hkind : kind ≠ .stepLine) :
    ∃ keyword ∈ m.dialect.keywords k, content.FollowsKeyword kind keyword l := by
  obtain ⟨keyword, hkeyword, hcontent⟩ := List.exists_of_findSome?_eq_some h
  obtain ⟨title, htitle, rfl⟩ := Option.map_eq_some_iff.mp hcontent
  refine ⟨keyword, hkeyword, rfl, rfl, ?_⟩
  rw [Line.title?] at htitle
  split at htitle
  · next rest hafter =>
      obtain rfl := Option.some.inj htitle
      exact ⟨rest, by rw [TokenKind.mark_of_ne hkind]; exact hafter, rfl⟩
  · cases htitle

theorem exists_keyword_of_step?_eq_some (h : m.step? l = some content) :
    ∃ keyword ∈ m.dialect.keywords .step, content.FollowsKeyword .stepLine keyword l := by
  obtain ⟨keyword, hkeyword, hcontent⟩ := List.exists_of_findSome?_eq_some h
  obtain ⟨text, htext, rfl⟩ := Option.map_eq_some_iff.mp hcontent
  obtain ⟨rest, hafter, rfl⟩ := Option.map_eq_some_iff.mp htext
  exact ⟨keyword, hkeyword, rfl, rfl, rest, hafter, rfl⟩

/-- A title line or a step line starts with a keyword of the dialect. -/
theorem exists_keyword_of_lineContent? {kind : TokenKind} {category : KeywordKind}
    (hkind : kind.category? = some category) (h : m.lineContent? kind l = some content) :
    ∃ keyword ∈ m.dialect.keywords category, content.FollowsKeyword kind keyword l := by
  rcases TokenKind.category?_cases hkind with ⟨rfl, rfl⟩ | ⟨hne, htitle⟩
  · exact exists_keyword_of_step?_eq_some h
  · rw [lineContent?_of_keywordKind? htitle] at h
    exact exists_keyword_of_title?_eq_some h hne

end Matcher
end Gherkin
