import Gherkin.Proofs.Dialect.Keywords
import Gherkin.Proofs.Dialect.Titles

/-!
# Kinds that can be told apart

A line of a built-in dialect is of one kind at most, free text and pragmas apart,
whether or not a doc string is open.  The keyword of a title line is the only one
that it starts with, and the keyword of a step line is the longest one.
-/

namespace Gherkin

namespace TokenKind

/-- The kinds of lines that are told by their starts and are no title lines. -/
def bodyLines : List TokenKind :=
  [empty, comment, tagLine, docStringSeparator, tableRow, stepLine]

/-- The kinds of which a line is one at most. -/
def told : List TokenKind :=
  bodyLines ++ titleLines

theorem mem_told {kind : TokenKind} (heof : kind ≠ eof) (hlanguage : kind ≠ language)
    (hother : kind ≠ other) : kind ∈ told := by
  cases kind <;> first | contradiction | decide

end TokenKind

namespace Dialect

/-- A dialect of the built-in tables, perhaps by way of the language without its subtags. -/
def IsBuiltin (d : Dialect) : Prop :=
  ∃ tag map, Builtin.keywords tag = some map ∧ d = .ofMap tag map

/-- Lines that are no title lines are told apart by their starts. -/
def TellsLines (d : Dialect) : Prop :=
  ∀ kind ∈ TokenKind.bodyLines, ∀ kind' ∈ TokenKind.bodyLines,
    ∀ start ∈ d.starts kind, ∀ start' ∈ d.starts kind', alike start start' = true → kind = kind'

/-- A step keyword is tried in front of those that it starts with. -/
def TriesLongest (d : Dialect) : Prop :=
  (d.keywords .step).Pairwise fun keyword later =>
    keyword.toList <+: later.toList → later = keyword

end Dialect

theorem Builtin.tellsLines_tables :
    ∀ table ∈ tables, ∀ kind ∈ TokenKind.bodyLines, ∀ kind' ∈ TokenKind.bodyLines,
      ∀ start ∈ (Dialect.ofMap table.1 (.ofEntries table.2)).starts kind,
        ∀ start' ∈ (Dialect.ofMap table.1 (.ofEntries table.2)).starts kind',
          alike start start' = true → kind = kind' := by
  decide +kernel

theorem Builtin.triesLongest_tables :
    ∀ table ∈ tables,
      ((Dialect.ofMap table.1 (.ofEntries table.2)).keywords .step).Pairwise fun keyword later =>
        keyword.toList <+: later.toList → later = keyword := by
  decide +kernel

namespace Dialect.IsBuiltin

variable {d : Dialect} {kind kind' : TokenKind} {start start' line : List Char}

theorem proper (hd : d.IsBuiltin) : d.Proper := by
  obtain ⟨tag, map, hmap, rfl⟩ := hd
  exact Builtin.proper_ofMap hmap tag

theorem marksTitles (hd : d.IsBuiltin) : d.MarksTitles := by
  obtain ⟨tag, map, hmap, rfl⟩ := hd
  exact Builtin.marksTitles_ofMap hmap tag

theorem exists_table (hd : d.IsBuiltin) :
    ∃ table ∈ Builtin.tables, d.keywords = (ofMap table.1 (.ofEntries table.2)).keywords := by
  obtain ⟨tag, map, hmap, rfl⟩ := hd
  obtain ⟨entries, hentries, rfl⟩ := Option.map_eq_some_iff.mp hmap
  obtain ⟨name, hname⟩ := Builtin.exists_mem_tables_of_table? hentries
  exact ⟨_, hname, rfl⟩

theorem triesLongest (hd : d.IsBuiltin) : d.TriesLongest := by
  obtain ⟨table, htable, hkeywords⟩ := hd.exists_table
  rw [TriesLongest, hkeywords]
  exact Builtin.triesLongest_tables table htable

theorem tellsLines (hd : d.IsBuiltin) : d.TellsLines := by
  obtain ⟨tag, map, hmap, rfl⟩ := hd
  obtain ⟨entries, hentries, rfl⟩ := Option.map_eq_some_iff.mp hmap
  obtain ⟨name, hname⟩ := Builtin.exists_mem_tables_of_table? hentries
  exact Builtin.tellsLines_tables _ hname

theorem ne_nil_of_mem_starts (hd : d.IsBuiltin) (h : start ∈ d.starts kind) : start ≠ [] := by
  have htitle : ∀ k, start ∈ d.titleStarts k → start ≠ [] := by
    intro k hstart
    obtain ⟨keyword, -, rfl⟩ := List.mem_map.mp hstart
    simp
  cases kind with
  | eof | empty | other => exact absurd h List.not_mem_nil
  | comment | language | tagLine | tableRow =>
      obtain rfl := List.mem_singleton.mp h
      simp
  | docStringSeparator =>
      simp only [starts, Separator.text] at h
      rintro rfl
      revert h
      decide
  | stepLine =>
      obtain ⟨keyword, hkeyword, rfl⟩ := List.mem_map.mp h
      obtain ⟨c, cs, hcs, -⟩ := exists_of_isProperKeyword (hd.proper .step keyword hkeyword)
      rw [hcs]
      exact List.cons_ne_nil c cs
  | _ => exact htitle _ h

/-- A line starts as lines of one kind do. -/
theorem eq_of_starts (hd : d.IsBuiltin) (hkind : kind ∈ TokenKind.told)
    (hkind' : kind' ∈ TokenKind.told) (hstart : start ∈ d.starts kind)
    (hstart' : start' ∈ d.starts kind') (h : start <+: line) (h' : start' <+: line) :
    kind = kind' := by
  by_cases htitle : kind ∈ TokenKind.titleLines
  · exact (eq_of_marks (hd.marksTitles kind htitle start hstart) hstart' h h').1.symm
  · by_cases htitle' : kind' ∈ TokenKind.titleLines
    · exact (eq_of_marks (hd.marksTitles kind' htitle' start' hstart') hstart h' h).1
    · have hbody := (List.mem_append.mp hkind).resolve_right htitle
      have hbody' := (List.mem_append.mp hkind').resolve_right htitle'
      apply hd.tellsLines kind hbody kind' hbody' start hstart start' hstart'
      exact alike_of_starts h h'

end Dialect.IsBuiltin

namespace Matcher

variable {m : Matcher} {l : Line} {kind kind' : TokenKind} {content : Content}

/-- What a line is inside a doc string, it is outside, too. -/
theorem isSome_lineContent?_outside (h : (m.lineContent? kind l).isSome = true) :
    (lineContent? { m with docString := none } kind l).isSome = true := by
  cases kind with
  | docStringSeparator =>
      cases hdoc : m.docString with
      | none =>
          rw [lineContent?, separator?, hdoc] at h
          exact h
      | some opened =>
          have hstarts : l.startsWith opened.separator.text = true := by
            simpa [lineContent?, separator?, hdoc] using h
          obtain ⟨rest, hrest⟩ := Line.startsWith_iff.mp hstarts
          simp only [lineContent?, separator?, Separator.ofLine?_eq_some hrest.symm,
            Line.rest?_eq_some hrest.symm, Option.bind_some, Option.map_some, Option.isSome_some]
  | other => rfl
  | _ => exact h

/-- A line is blank, or it starts as lines of its kind do. -/
theorem isEmpty_or_exists_start (hother : kind ≠ .other)
    (h : (m.lineContent? kind l).isSome = true) :
    kind = .empty ∧ l.trimmed = [] ∨ ∃ start ∈ m.dialect.starts kind, start <+: l.trimmed := by
  by_cases hempty : kind = .empty
  · left
    refine ⟨hempty, ?_⟩
    subst hempty
    simpa [lineContent?, Line.isEmpty] using h
  · right
    exact exists_start_of_lineContent? (m := { m with docString := none }) rfl hempty hother
      (isSome_lineContent?_outside h)

/-- A line is of one kind at most, free text and pragmas apart. -/
theorem eq_of_told (hd : m.dialect.IsBuiltin) (hkind : kind ∈ TokenKind.told)
    (hkind' : kind' ∈ TokenKind.told) (h : (m.lineContent? kind l).isSome = true)
    (h' : (m.lineContent? kind' l).isSome = true) : kind = kind' := by
  have hother : TokenKind.other ∉ TokenKind.told := by decide
  have hnotEmpty : ∀ {kind : TokenKind} {start : List Char}, l.trimmed = [] →
      start ∈ m.dialect.starts kind → ¬start <+: l.trimmed := by
    intro kind start hblank hstart hprefix
    rw [hblank, List.prefix_nil] at hprefix
    exact hd.ne_nil_of_mem_starts hstart hprefix
  rcases isEmpty_or_exists_start (ne_of_mem_of_not_mem hkind hother) h with
    ⟨rfl, hblank⟩ | ⟨start, hstart, hprefix⟩
  · rcases isEmpty_or_exists_start (ne_of_mem_of_not_mem hkind' hother) h' with
      ⟨rfl, -⟩ | ⟨start', hstart', hprefix'⟩
    · rfl
    · exact absurd hprefix' (hnotEmpty hblank hstart')
  · rcases isEmpty_or_exists_start (ne_of_mem_of_not_mem hkind' hother) h' with
      ⟨-, hblank⟩ | ⟨start', hstart', hprefix'⟩
    · exact absurd hprefix (hnotEmpty hblank hstart)
    · exact hd.eq_of_starts hkind hkind' hstart hstart' hprefix hprefix'

/-- Every pragma is a comment. -/
theorem isSome_comment_of_language (h : (m.lineContent? .language l).isSome = true) :
    (m.lineContent? .comment l).isSome = true := by
  by_contra hcomment
  have hsharp : l.startsWith "#" = false := by
    simpa [lineContent?] using hcomment
  rw [lineContent?, Line.languageTag?_eq_none hsharp] at h
  cases h

/-- A title line starts with no other title keyword than its own. -/
theorem exists_title_keyword (hd : m.dialect.IsBuiltin) {k : KeywordKind}
    (hkind : kind.keywordKind? = some k) (h : m.lineContent? kind l = some content) :
    ∃ keyword ∈ m.dialect.keywords k, content.keyword = some keyword ∧
      keyword.toList ++ [':'] <+: l.trimmed ∧
      ∀ kind' k', kind'.keywordKind? = some k' → ∀ keyword' ∈ m.dialect.keywords k',
        keyword'.toList ++ [':'] <+: l.trimmed → kind' = kind ∧ keyword' = keyword := by
  have htitle : m.title? k l = some content := by
    rw [← lineContent?_of_keywordKind? hkind]
    exact h
  have hne : kind ≠ .stepLine := by
    rintro rfl
    cases hkind
  obtain ⟨keyword, hkeyword, hfollows⟩ := exists_keyword_of_title?_eq_some htitle hne
  obtain ⟨rest, hrest, -⟩ := hfollows.text
  have hprefix : keyword.toList ++ [':'] <+: l.trimmed := by
    refine ⟨rest, ?_⟩
    rw [Line.after?_eq_some_iff.mp hrest, TokenKind.mark_of_ne hne, List.append_assoc]
  refine ⟨keyword, hkeyword, hfollows.opening, hprefix, ?_⟩
  intro kind' k' hkind' keyword' hkeyword' hprefix'
  have hstart : keyword.toList ++ [':'] ∈ m.dialect.starts kind := by
    rw [Dialect.starts_of_keywordKind? _ hkind]
    exact List.mem_map_of_mem hkeyword
  have hstart' : keyword'.toList ++ [':'] ∈ m.dialect.starts kind' := by
    rw [Dialect.starts_of_keywordKind? _ hkind']
    exact List.mem_map_of_mem hkeyword'
  have hmarks := hd.marksTitles kind (TokenKind.mem_titleLines hkind) _ hstart
  obtain ⟨hsame, htext⟩ := Dialect.eq_of_marks hmarks hstart' hprefix hprefix'
  exact ⟨hsame, String.toList_injective (List.append_cancel_right htext)⟩

/-- The keyword of a step line is the longest one that the line starts with. -/
theorem exists_step_keyword (hd : m.dialect.IsBuiltin)
    (h : m.lineContent? .stepLine l = some content) :
    ∃ keyword ∈ m.dialect.keywords .step, content.keyword = some keyword ∧
      keyword.toList <+: l.trimmed ∧
      ∀ keyword' ∈ m.dialect.keywords .step, keyword'.toList <+: l.trimmed →
        keyword'.length ≤ keyword.length := by
  rw [lineContent?, step?] at h
  obtain ⟨tried, keyword, later, hsplit, hcontent, htried⟩ := List.findSome?_eq_some_iff.mp h
  obtain ⟨text, htext, rfl⟩ := Option.map_eq_some_iff.mp hcontent
  have hprefix : keyword.toList <+: l.trimmed := Line.prefix_of_rest? (by rw [htext]; rfl)
  have horder := hd.triesLongest
  rw [Dialect.TriesLongest, hsplit, List.pairwise_append, List.pairwise_cons] at horder
  refine ⟨keyword, by rw [hsplit]; simp, rfl, hprefix, ?_⟩
  intro keyword' hkeyword' hprefix'
  rw [hsplit, List.mem_append, List.mem_cons] at hkeyword'
  rcases hkeyword' with hearlier | rfl | hlater
  · -- a keyword that is tried earlier would have been found
    obtain ⟨rest, hrest⟩ := hprefix'
    have hnone := htried keyword' hearlier
    rw [Line.rest?_eq_some hrest.symm] at hnone
    cases hnone
  · exact Nat.le_refl _
  · rw [← String.length_toList, ← String.length_toList]
    rcases List.prefix_or_prefix_of_prefix hprefix' hprefix with hshorter | hlonger
    · exact hshorter.length_le
    · exact Nat.le_of_eq (by rw [horder.2.1.1 keyword' hlater hlonger])

/-- It is clear what a line is.  It is of one kind at most, free text and pragmas apart, it starts
with one title keyword at most, and of its step keywords the longest one counts. -/
structure Unambiguous (m : Matcher) (l : Line) : Prop where
  kinds : ∀ kind ∈ TokenKind.told, ∀ kind' ∈ TokenKind.told,
    (m.lineContent? kind l).isSome = true → (m.lineContent? kind' l).isSome = true → kind = kind'
  pragma : (m.lineContent? .language l).isSome = true → (m.lineContent? .comment l).isSome = true
  title : ∀ kind k content, kind.keywordKind? = some k → m.lineContent? kind l = some content →
    ∃ keyword ∈ m.dialect.keywords k, content.keyword = some keyword ∧
      keyword.toList ++ [':'] <+: l.trimmed ∧
      ∀ kind' k', kind'.keywordKind? = some k' → ∀ keyword' ∈ m.dialect.keywords k',
        keyword'.toList ++ [':'] <+: l.trimmed → kind' = kind ∧ keyword' = keyword
  step : ∀ content, m.lineContent? .stepLine l = some content →
    ∃ keyword ∈ m.dialect.keywords .step, content.keyword = some keyword ∧
      keyword.toList <+: l.trimmed ∧
      ∀ keyword' ∈ m.dialect.keywords .step, keyword'.toList <+: l.trimmed →
        keyword'.length ≤ keyword.length

theorem unambiguous (hd : m.dialect.IsBuiltin) (l : Line) : m.Unambiguous l where
  kinds _ hkind _ hkind' h h' := eq_of_told hd hkind hkind' h h'
  pragma h := isSome_comment_of_language h
  title _ _ _ hkind h := exists_title_keyword hd hkind h
  step _ h := exists_step_keyword hd h

end Matcher
end Gherkin
