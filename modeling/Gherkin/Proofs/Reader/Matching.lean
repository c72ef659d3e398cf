import Gherkin.Proofs.Reader.Basic

/-!
# Tokens that have been matched

A token that has been matched is read as its line is of that kind, in the dialect
that is active behind it.  Only pragmas change the dialect and only separators change
what is open, and what has been read of a token before does not count.
-/

namespace Gherkin

namespace Token

/-- The token before anything has read it. -/
def fresh (t : Token) : Token :=
  { t with reading := none }

@[simp] theorem fresh_line (t : Token) : t.fresh.line = t.line := rfl

@[simp] theorem fresh_number (t : Token) : t.fresh.number = t.number := rfl

@[simp] theorem fresh_isEof (t : Token) : t.fresh.isEof = t.isEof := rfl

@[simp] theorem fresh_readAs (t : Token) (reading : Reading) :
    (t.readAs reading).fresh = t.fresh := rfl

end Token

/-- The token has been read as a token of some kind. -/
def Token.IsRead (t : Token) : Prop :=
  ∃ m kind t' next, Matcher.matchAs m kind t' = .ok (some (next, t))

namespace Matcher

variable {m next : Matcher} {kind : TokenKind} {t read : Token}

@[simp] theorem isOf_fresh (m : Matcher) (kind : TokenKind) (t : Token) :
    m.isOf kind t.fresh = m.isOf kind t := rfl

/-- Matching a token forgets how it has been read before. -/
theorem matchAs_fresh (m : Matcher) (kind : TokenKind) (t : Token) :
    m.matchAs kind t.fresh = m.matchAs kind t := rfl

/-! ### Kinds of tokens -/

/-- A token with a line is of the kinds that its line is of. -/
theorem isOf_of_line {l : Line} (hline : t.line = some l) (kind : TokenKind) :
    m.isOf kind t = (m.lineContent? kind l).isSome := by
  rw [isOf, hline]
  rfl

theorem exists_line_of_isOf (hkind : kind ≠ .eof) (h : m.isOf kind t = true) :
    ∃ l, t.line = some l ∧ (m.lineContent? kind l).isSome = true := by
  cases hline : t.line with
  | none =>
      rw [isOf, hline, content?, if_neg hkind] at h
      cases h
  | some l =>
      rw [isOf_of_line hline] at h
      exact ⟨l, rfl, h⟩

theorem matchAs_of_isOf_eq_false (h : m.isOf kind t = false) :
    m.matchAs kind t = .ok none := by
  rw [isOf, Option.isSome_eq_false_iff, Option.isNone_iff_eq_none] at h
  rw [matchAs, h]

theorem matchAs_ne_none_of_isOf (h : m.isOf kind t = true) : m.matchAs kind t ≠ .ok none := by
  obtain ⟨content, hcontent⟩ := Option.isSome_iff_exists.mp h
  rw [matchAs, hcontent]
  simp only
  split <;> simp

/-- Only pragmas can fail to be read. -/
theorem exists_matchAs_of_isOf (h : m.isOf kind t = true) (hkind : kind ≠ .language) :
    ∃ next read, m.matchAs kind t = .ok (some (next, read)) := by
  obtain ⟨content, hcontent⟩ := Option.isSome_iff_exists.mp h
  rw [matchAs, hcontent]
  cases kind with
  | language => exact absurd rfl hkind
  | _ => exact ⟨_, _, rfl⟩

theorem kind_eq_language_of_matchAs {e : DialectError} (h : m.matchAs kind t = .error e) :
    kind = .language ∧ m.isOf kind t = true := by
  rw [matchAs] at h
  split at h
  · cases h
  · next content hcontent =>
      refine ⟨?_, by rw [isOf, hcontent]; rfl⟩
      cases kind with
      | language => rfl
      | _ => cases h

/-! ### What a token is read as -/

/-- What a token is read as. -/
theorem exists_content_of_matchAs (h : m.matchAs kind t = .ok (some (next, read))) :
    ∃ content, m.content? kind t.line = some content ∧ m.after kind t content = .ok next ∧
      read = t.readAs { content with kind := kind, dialect := next.dialect } := by
  rw [matchAs] at h
  split at h
  · cases h
  · next content hcontent =>
      split at h
      · next behind hafter =>
          simp only [Except.ok.injEq, Option.some.injEq, Prod.mk.injEq] at h
          obtain ⟨rfl, rfl⟩ := h
          exact ⟨content, hcontent, hafter, rfl⟩
      · cases h

/-- What has been read of a line is what the line is as that kind. -/
theorem exists_line_of_matchAs (h : m.matchAs kind t = .ok (some (next, read)))
    (hkind : kind ≠ .eof) :
    ∃ l content, t.line = some l ∧ m.lineContent? kind l = some content ∧
      m.after kind t content = .ok next ∧
      read = t.readAs { content with kind := kind, dialect := next.dialect } := by
  obtain ⟨content, hcontent, hafter, hread⟩ := exists_content_of_matchAs h
  cases hline : t.line with
  | none =>
      rw [hline, content?, if_neg hkind] at hcontent
      cases hcontent
  | some l =>
      rw [hline] at hcontent
      exact ⟨l, content, rfl, hcontent, hafter, hread⟩

section Read

variable (h : m.matchAs kind t = .ok (some (next, read)))

include h

theorem isOf_of_matchAs : m.isOf kind t = true := by
  obtain ⟨content, hcontent, -, -⟩ := exists_content_of_matchAs h
  rw [isOf, hcontent]
  rfl

theorem kind?_of_matchAs : read.kind? = some kind := by
  obtain ⟨content, -, -, rfl⟩ := exists_content_of_matchAs h
  rfl

/-- A token that has been matched is still the same line or end of the source. -/
theorem fresh_of_matchAs : read.fresh = t.fresh := by
  obtain ⟨content, -, -, rfl⟩ := exists_content_of_matchAs h
  exact Token.fresh_readAs t _

theorem line_of_matchAs : read.line = t.line := by
  rw [← Token.fresh_line, fresh_of_matchAs h, Token.fresh_line]

theorem isEof_of_matchAs : read.isEof = t.isEof := by
  rw [← Token.fresh_isEof, fresh_of_matchAs h, Token.fresh_isEof]

/-- A token that has been matched is matched again as before. -/
theorem matchAs_of_matchAs (other : Matcher) (kind' : TokenKind) :
    other.matchAs kind' read = other.matchAs kind' t := by
  rw [← other.matchAs_fresh kind' t, ← fresh_of_matchAs h, other.matchAs_fresh]

/-- The end of the source is read as such, and nothing else is. -/
theorem isEof_iff_of_matchAs : read.isEof = true ↔ kind = .eof := by
  rw [isEof_of_matchAs h, Token.isEof]
  by_cases heof : kind = .eof
  · subst heof
    obtain ⟨content, hcontent, -, -⟩ := exists_content_of_matchAs h
    cases hline : t.line with
    | none => simp
    | some l =>
        rw [hline] at hcontent
        cases hcontent
  · obtain ⟨l, content, hline, -⟩ := exists_line_of_matchAs h heof
    simp [hline, heof]

theorem kind_eq_eof_of_matchAs (heof : t.isEof = true) : kind = .eof :=
  (isEof_iff_of_matchAs h).mp ((isEof_of_matchAs h).trans heof)

end Read

/-! ### The matcher behind a token -/

/-- A pragma changes the dialect and the resolver, a separator what is open, and no
other token changes anything. -/
theorem after_cases {content : Content} (h : m.after kind t content = .ok next) :
    (kind = .language ∧ ∃ dialect resolver,
      m.resolver.resolve (content.text.getD "") ⟨t.number, t.lineIndent + 1⟩ =
        .ok (dialect, resolver) ∧
      next = { m with resolver := resolver, dialect := dialect }) ∨
    (kind = .docStringSeparator ∧ next = { m with docString := t.line.bind m.docStringAfter }) ∨
    (kind ≠ .language ∧ kind ≠ .docStringSeparator ∧ next = m) := by
  by_cases hpragma : kind = .language
  · subst hpragma
    left
    rw [after] at h
    split at h
    · next dialect resolver hresolve =>
        exact ⟨rfl, dialect, resolver, hresolve, (Except.ok.inj h).symm⟩
    · cases h
  · right
    by_cases hseparator : kind = .docStringSeparator
    · subst hseparator
      exact .inl ⟨rfl, (Except.ok.inj h).symm⟩
    · right
      refine ⟨hpragma, hseparator, ?_⟩
      rw [after] at h
      · exact (Except.ok.inj h).symm
      · exact hpragma
      · exact hseparator

/-- Only pragmas and separators of doc strings change what is read behind them. -/
theorem eq_of_matchAs (hpragma : kind ≠ .language) (hseparator : kind ≠ .docStringSeparator)
    (h : m.matchAs kind t = .ok (some (next, read))) : next = m := by
  obtain ⟨content, -, hafter, -⟩ := exists_content_of_matchAs h
  rcases after_cases hafter with ⟨hkind, -⟩ | ⟨hkind, -⟩ | ⟨-, -, hsame⟩
  · exact absurd hkind hpragma
  · exact absurd hkind hseparator
  · exact hsame

/-- Only separators open and close doc strings. -/
theorem docString_eq_of_matchAs (hkind : kind ≠ .docStringSeparator)
    (h : m.matchAs kind t = .ok (some (next, read))) : next.docString = m.docString := by
  obtain ⟨content, -, hafter, -⟩ := exists_content_of_matchAs h
  rcases after_cases hafter with ⟨-, dialect, resolver, -, rfl⟩ | ⟨hseparator, -⟩ | ⟨-, -, rfl⟩
  · rfl
  · exact absurd hseparator hkind
  · rfl

theorem dialect_of_matchAs (hkind : kind ≠ .language)
    (h : m.matchAs kind t = .ok (some (next, read))) : next.dialect = m.dialect := by
  obtain ⟨content, -, hafter, -⟩ := exists_content_of_matchAs h
  rcases after_cases hafter with ⟨hpragma, -⟩ | ⟨-, rfl⟩ | ⟨-, -, rfl⟩
  · exact absurd hpragma hkind
  · rfl
  · rfl

/-- Only pragmas ask the resolver for something to keep. -/
theorem resolver_eq_of_matchAs (hkind : kind ≠ .language)
    (h : m.matchAs kind t = .ok (some (next, read))) : next.resolver = m.resolver := by
  obtain ⟨content, -, hafter, -⟩ := exists_content_of_matchAs h
  rcases after_cases hafter with ⟨hpragma, -⟩ | ⟨-, rfl⟩ | ⟨-, -, rfl⟩
  · exact absurd hpragma hkind
  · rfl
  · rfl

/-- A separator that is read is a line, and the matcher behind it holds what the line opens. -/
theorem exists_line_of_matchAs_separator
    (h : m.matchAs .docStringSeparator t = .ok (some (next, read))) :
    ∃ l content, t.line = some l ∧ m.separator? l = some content ∧
      next = { m with docString := m.docStringAfter l } := by
  obtain ⟨l, content, hline, hcontent, hafter, -⟩ :=
    exists_line_of_matchAs h TokenKind.noConfusion
  refine ⟨l, content, hline, hcontent, ?_⟩
  rw [← Except.ok.inj hafter, hline]
  rfl

end Matcher
end Gherkin
