import Gherkin.Proofs.Realisation.Starts

/-!
# Titles that can be told apart

No title line of a built-in dialect is a line of another kind, a title line or
any other, but free text.  A resolver over the built-in tables gives only such
dialects, whatever it has resolved before.
-/

namespace Gherkin

/-- The kinds of title lines. -/
def TokenKind.titleLines : List TokenKind :=
  [featureLine, backgroundLine, scenarioLine, scenarioOutlineLine, examplesLine]

/-- No line that starts as a title line does starts as a line of another kind does. -/
def Dialect.MarksTitles (d : Dialect) : Prop :=
  ∀ kind ∈ TokenKind.titleLines, ∀ start ∈ d.starts kind, d.marks kind start = true

theorem Builtin.marksTitles_tables :
    ∀ table ∈ tables, ∀ kind ∈ TokenKind.titleLines,
      ∀ start ∈ (Dialect.ofMap table.1 (.ofEntries table.2)).starts kind,
        (Dialect.ofMap table.1 (.ofEntries table.2)).marks kind start = true := by
  decide +kernel

theorem Builtin.marksTitles_ofMap {tag : String} {map : KeywordMap} (h : keywords tag = some map)
    (language : String) : (Dialect.ofMap language map).MarksTitles := by
  obtain ⟨entries, hentries, rfl⟩ := Option.map_eq_some_iff.mp h
  obtain ⟨name, hname⟩ := exists_mem_tables_of_table? hentries
  exact marksTitles_tables _ hname

theorem TokenKind.mem_titleLines {kind : TokenKind} {k : KeywordKind}
    (h : kind.keywordKind? = some k) : kind ∈ titleLines := by
  cases kind <;> cases h <;> decide

namespace Matcher

variable {m next : Matcher} {kind : TokenKind} {t read : Token}

/-- A title line starts as title lines of its kind do. -/
theorem exists_start_of_title {l : Line} {k : KeywordKind} (hkind : kind.keywordKind? = some k)
    (h : (m.lineContent? kind l).isSome = true) :
    ∃ start ∈ m.dialect.starts kind, start <+: l.trimmed := by
  rw [lineContent?_of_keywordKind? hkind] at h
  rw [Dialect.starts_of_keywordKind? _ hkind]
  exact exists_keyword_of_title? h

/-- The matcher reads in a dialect of the built-in tables, whose titles can be
told apart. -/
structure TellsTitles (m : Matcher) : Prop where
  builtin : m.IsBuiltin
  titles : m.dialect.MarksTitles

theorem tellsTitles_of_resolve {r r' : Resolver} (h : r.IsBuiltin) {language : String}
    {location : Location} {d : Dialect} (hd : r.resolve language location = .ok (d, r'))
    (docString : Option OpenDocString) : TellsTitles ⟨r', d, docString⟩ := by
  obtain ⟨⟨tag, map, hmap, rfl⟩, hr'⟩ := h.exists_table_of_resolve hd
  exact ⟨⟨hr', Builtin.proper_ofMap hmap _⟩, Builtin.marksTitles_ofMap hmap _⟩

theorem tellsTitles_of_start {resolver : Resolver} (h : resolver.IsBuiltin)
    (hm : start resolver = .ok m) : m.TellsTitles := by
  rw [start] at hm
  split at hm
  · next dialect kept hresolve =>
      obtain rfl := Except.ok.inj hm
      exact tellsTitles_of_resolve h hresolve none
  · cases hm

theorem TellsTitles.of_matchAs (hm : m.TellsTitles)
    (h : m.matchAs kind t = .ok (some (next, read))) : next.TellsTitles := by
  obtain ⟨content, -, hafter, -⟩ := exists_content_of_matchAs h
  rcases after_cases hafter with ⟨-, dialect, resolver, hresolve, rfl⟩ | ⟨-, rfl⟩ | ⟨-, -, rfl⟩
  · exact tellsTitles_of_resolve hm.builtin.resolver hresolve m.docString
  · exact ⟨⟨hm.builtin.resolver, hm.builtin.dialect⟩, hm.titles⟩
  · exact hm

/-- A title line is a line. -/
theorem exists_line_of_title {k : KeywordKind} (hkind : kind.keywordKind? = some k)
    (h : m.isOf kind t = true) :
    ∃ l, t.line = some l ∧ (m.lineContent? kind l).isSome = true := by
  refine exists_line_of_isOf ?_ h
  rintro rfl
  cases hkind

/-- A token is a title line of one kind at most. -/
theorem TellsTitles.eq_of_isOf (hm : m.TellsTitles) {kind' : TokenKind} {k k' : KeywordKind}
    (hkind : kind.keywordKind? = some k) (hkind' : kind'.keywordKind? = some k')
    (h : m.isOf kind t = true) (h' : m.isOf kind' t = true) : kind = kind' := by
  obtain ⟨l, hline, hcontent⟩ := exists_line_of_title hkind h
  obtain ⟨l', hline', hcontent'⟩ := exists_line_of_title hkind' h'
  obtain rfl := Option.some.inj (hline.symm.trans hline')
  obtain ⟨start, hstart, hprefix⟩ := exists_start_of_title hkind hcontent
  obtain ⟨start', hstart', hprefix'⟩ := exists_start_of_title hkind' hcontent'
  have hmarks := hm.titles kind' (TokenKind.mem_titleLines hkind') start' hstart'
  exact (Dialect.eq_of_marks hmarks hstart hprefix' hprefix).1

end Matcher
end Gherkin
