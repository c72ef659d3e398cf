import Gherkin.Proofs.Rendering.Basic
import Gherkin.Proofs.Text.Splitting

/-!
# Reading rendered lines

What is read on a rendered line is what has been written on it.
-/

namespace Gherkin

namespace Separator

variable (s : Separator) {blanks : List Char} (hblanks : Text.AllBlank blanks)

include hblanks

theorem trimmed_indented (rest : List Char) :
    (⟨blanks ++ (s.text.toList ++ rest)⟩ : Line).trimmed = s.text.toList ++ rest := by
  rw [toList_text, List.cons_append]
  exact Line.trimmed_indented_cons hblanks s.isBlank_mark _

theorem indent_indented (rest : List Char) :
    (⟨blanks ++ (s.text.toList ++ rest)⟩ : Line).indent = blanks.length := by
  rw [toList_text, List.cons_append]
  exact Line.indent_indented hblanks s.isBlank_mark _

/-- The separator alone closes the doc string. -/
theorem startsWith_indented : (⟨blanks ++ s.text.toList⟩ : Line).startsWith s.text = true := by
  have htrimmed := s.trimmed_indented hblanks []
  rw [List.append_nil] at htrimmed
  apply Line.startsWith_iff.mpr
  exact ⟨[], (List.append_nil _).trans htrimmed.symm⟩

/-- A line that has been escaped does not close the doc string. -/
theorem startsWith_escape (cs : List Char) :
    (⟨blanks ++ s.escape cs⟩ : Line).startsWith s.text = false := by
  rw [← Bool.not_eq_true, Line.startsWith_iff, Line.trimmed_indented hblanks, trimStart_escape]
  exact s.not_prefix_escape _

end Separator

namespace Written

theorem trimmed_indented (n : Nat) (cs : List Char) :
    (indented n cs).trimmed = Text.trimStart cs :=
  Line.trimmed_indented (Text.allBlank_replicate n) cs

theorem dropIndent_indented (n : Nat) (cs : List Char) : (indented n cs).dropIndent n = cs := by
  have hdrop := Line.dropIndent_indented (Text.allBlank_replicate n) cs
  rwa [List.length_replicate] at hdrop

theorem trimmed_indented_keyword (n : Nat) {k : KeywordKind} {keyword : String}
    (hkeyword : keyword ∈ Dialect.english.keywords k) (rest : List Char) :
    (indented n (keyword.toList ++ rest)).trimmed = keyword.toList ++ rest := by
  obtain ⟨c, cs, hcs, hblank, -⟩ :=
    exists_of_isProperKeyword (Dialect.proper_english k keyword hkeyword)
  rw [trimmed_indented, hcs]
  exact List.dropWhile_cons_of_neg (by simp [hblank])

theorem trimmed_indented_cons (n : Nat) {c : Char} (hc : Text.isBlank c = false)
    (cs : List Char) : (indented n (c :: cs)).trimmed = c :: cs :=
  Line.trimmed_indented_cons (Text.allBlank_replicate n) hc cs

variable {m : Matcher}

theorem reads_title (hm : m.IsEnglish) {kind : TokenKind} {k : KeywordKind} {keyword : String}
    (hkind : kind.keywordKind? = some k) (hkeyword : keyword ∈ Dialect.english.keywords k)
    (n : Nat) (name : Phrase) :
    ∃ indent, m.Reads kind (indented n (keyword.toList ++ ':' :: ' ' :: name.chars))
      { keyword := some keyword, text := some (String.ofList name.chars), indent := indent } := by
  have hname : Text.trim (' ' :: name.chars) = name.chars :=
    (Text.trim_append_left_of_allBlank Text.allBlank_singleton name.chars).trans name.trimmed
  have hreads := hm.reads_title hkind hkeyword
    (trimmed_indented_keyword n hkeyword (':' :: ' ' :: name.chars))
  rw [hname] at hreads
  exact ⟨_, hreads⟩

theorem reads_step (hm : m.IsEnglish) (s : Step) :
    ∃ indent, m.Reads .stepLine (indented 4 (s.keyword.toList ++ s.text.chars))
      { keyword := some s.keyword, text := some (String.ofList s.text.chars),
        indent := indent } := by
  have hreads := hm.reads_step s.isKeyword (trimmed_indented_keyword 4 s.isKeyword s.text.chars)
  rw [s.text.trimmed] at hreads
  exact ⟨_, hreads⟩

theorem reads_freeLine (hm : m.IsEnglish) (n : Nat) (l : FreeLine) :
    m.Reads .other (indented n l.chars)
      { text := some (indented n l.chars).raw, indent := 0 } :=
  hm.reads_other l.other (trimmed_indented n l.chars)

theorem forall_mem_text (tags : List Tag) :
    ∀ word ∈ tags.map Tag.text, word ≠ [] ∧ ∀ c ∈ word, Text.isBlank c = false := by
  intro word hword
  obtain ⟨tag, -, rfl⟩ := List.mem_map.mp hword
  refine ⟨List.cons_ne_nil _ _, ?_⟩
  rw [Tag.text, List.forall_mem_cons]
  exact ⟨rfl, tag.noBlank⟩

/-- The tags on a line are those that have been written on it. -/
theorem reads_tags (hm : m.IsEnglish) (n : Nat) (tag : Tag) (tags : List Tag) {l : Line}
    (hl : l = indented n ([' '].intercalate ((tag :: tags).map Tag.text))) :
    m.Reads .tagLine l { items := l.words, indent := l.indent } ∧
      l.words.map Span.text = (tag :: tags).map fun t => String.ofList t.text := by
  obtain ⟨rest, hrest⟩ : ∃ rest,
      [' '].intercalate ((tag :: tags).map Tag.text) = '@' :: rest := by
    cases tags with
    | nil => exact ⟨_, rfl⟩
    | cons tag' tags => exact ⟨_, rfl⟩
  have hline : l.trimmed = '@' :: rest := by
    rw [hl, hrest]
    exact trimmed_indented_cons n rfl rest
  refine ⟨hm.reads_tagLine (Line.startsWith_iff.mpr ⟨rest, hline.symm⟩), ?_⟩
  have hwords := Text.map_snd_words (l.indent + 1) (forall_mem_text (tag :: tags))
  rw [hrest, ← hline] at hwords
  have hspans := congrArg (List.map String.ofList) hwords
  rw [List.map_map, List.map_map] at hspans
  rw [Line.words, List.map_map]
  exact hspans

/-- The cells on a row are those that have been written on it. -/
theorem reads_row (hm : m.IsEnglish) (cells : List Cell) {l : Line}
    (hl : l = indented 6 (Text.rowText (cells.map Cell.chars))) :
    m.Reads .tableRow l { items := l.cells, indent := l.indent } ∧
      l.cells.map Span.text = cells.map fun c => String.ofList c.chars := by
  obtain ⟨rest, hrest⟩ : ∃ rest, Text.rowText (cells.map Cell.chars) = '|' :: rest := by
    cases cells with
    | nil => exact ⟨_, rfl⟩
    | cons cell cells => exact ⟨_, Text.rowText_cons _ _⟩
  have hline : l.trimmed = '|' :: rest := by
    rw [hl, hrest]
    exact trimmed_indented_cons 6 rfl rest
  have htrim : ∀ cell ∈ cells.map Cell.chars, Text.trim cell = cell := by
    intro cs hcs
    obtain ⟨cell, -, rfl⟩ := List.mem_map.mp hcs
    exact cell.trimmed
  have hcells := Line.map_text_cells (hline.trans hrest.symm) htrim
  rw [List.map_map] at hcells
  exact ⟨hm.reads_tableRow (Line.startsWith_iff.mpr ⟨rest, hline.symm⟩), hcells⟩

/-- A line that opens a doc string names the type of its content. -/
theorem reads_opening (hm : m.IsEnglish) (d : DocString) {l : Line}
    (hl : l = indented 6 (d.separator.text.toList ++ d.typeChars)) :
    m.Reads .docStringSeparator l
        { keyword := some d.separator.text, text := some (String.ofList d.typeChars),
          indent := 6 } ∧
      m.docStringAfter l = some ⟨d.separator, 6⟩ := by
  have hline : l.trimmed = d.separator.text.toList ++ d.typeChars := by
    rw [hl]
    exact d.separator.trimmed_indented (Text.allBlank_replicate 6) d.typeChars
  have hindent : l.indent = 6 := by
    rw [hl]
    exact d.separator.indent_indented (Text.allBlank_replicate 6) d.typeChars
  have htype : Text.trim d.typeChars = d.typeChars := by
    rw [DocString.typeChars]
    cases d.contentType with
    | none => rfl
    | some type => exact type.val.trimmed
  have hreads := hm.reads_opening hline
  rw [htype, hindent] at hreads
  refine ⟨hreads, ?_⟩
  rw [Matcher.docStringAfter, hm.docString, Separator.ofLine?_eq_some hline, hindent]
  rfl

/-- A line in a doc string does not close it, and its text is what has been
written. -/
theorem content_of_contentLine {s : Separator} (hdoc : m.docString = some ⟨s, 6⟩)
    (l : ContentLine s) :
    (indented 6 (s.escape l.chars)).startsWith s.text = false ∧
      m.lineContent? .other (indented 6 (s.escape l.chars)) =
        some { text := some (String.ofList l.chars), indent := 0 } := by
  constructor
  · exact s.startsWith_escape (Text.allBlank_replicate 6) l.chars
  · simp only [Matcher.lineContent?, Matcher.freeText, hdoc, dropIndent_indented,
      Separator.unescape_escape l.unescaped]

theorem content_of_closing {s : Separator} (hdoc : m.docString = some ⟨s, 6⟩) :
    (indented 6 s.text.toList).startsWith s.text = true ∧
      m.lineContent? .docStringSeparator (indented 6 s.text.toList) =
        some { keyword := some s.text, text := some "", indent := 6 } := by
  have hstarts : (indented 6 s.text.toList).startsWith s.text = true :=
    s.startsWith_indented (Text.allBlank_replicate 6)
  have hindent : (indented 6 (s.text.toList ++ [])).indent = 6 :=
    s.indent_indented (Text.allBlank_replicate 6) []
  rw [List.append_nil] at hindent
  refine ⟨hstarts, ?_⟩
  simp only [Matcher.lineContent?, Matcher.separator?, hdoc, hstarts, hindent, if_true]

end Written
end Gherkin
