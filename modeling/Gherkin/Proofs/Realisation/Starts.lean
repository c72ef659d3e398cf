import Gherkin.Proofs.Realisation.Choices
import Mathlib.Data.List.Basic

/-!
# Lines told by their starts

A line of English that starts with a keyword or a sign is of no kind that needs
another start, and its kind can be told by that start.  A line without any such
start is free text.
-/

namespace Gherkin

/-- The built-in dialect of English. -/
def Dialect.english : Dialect :=
  .ofMap "en" (.ofEntries Builtin.english)

/-- A matcher for English lines outside doc strings. -/
def Matcher.english : Matcher :=
  ⟨.builtin, .english, none⟩

/-- The kind of a line that is read without a grammar. -/
def Matcher.kindOf? (m : Matcher) (l : Line) : Option TokenKind :=
  match m.classify (.ofLine l 1) with
  | .ok (kind, _) => some kind
  | .error _ => none

/-! ### Starts of lines -/

/-- One of two texts may start with the other. -/
def alike (cs cs' : List Char) : Bool :=
  cs.isPrefixOf cs' || cs'.isPrefixOf cs

theorem alike_of_starts {cs cs' line : List Char} (h : cs <+: line) (h' : cs' <+: line) :
    alike cs cs' = true := by
  rw [alike, Bool.or_eq_true, List.isPrefixOf_iff_prefix, List.isPrefixOf_iff_prefix]
  exact List.prefix_or_prefix_of_prefix h h'

theorem findSome?_eq_some_of_unique {α β : Type} {f : α → Option β} {xs : List α} {a : α}
    {b : β} (ha : a ∈ xs) (hfa : f a = some b) (hunique : ∀ x ∈ xs, (f x).isSome = true → x = a) :
    xs.findSome? f = some b := by
  have hsome : (xs.findSome? f).isSome = true :=
    List.findSome?_isSome_iff.mpr ⟨a, ha, by rw [hfa]; rfl⟩
  obtain ⟨b', hb'⟩ := Option.isSome_iff_exists.mp hsome
  obtain ⟨x, hx, hfx⟩ := List.exists_of_findSome?_eq_some hb'
  obtain rfl := hunique x hx (by rw [hfx]; rfl)
  rw [hb', ← hfx, hfa]

/-- The kind of the keywords of a title line. -/
def TokenKind.keywordKind? : TokenKind → Option KeywordKind
  | featureLine => some .feature
  | backgroundLine => some .background
  | scenarioLine => some .scenario
  | scenarioOutlineLine => some .scenarioOutline
  | examplesLine => some .examples
  | _ => none

namespace Dialect

theorem proper_english : english.Proper :=
  Builtin.proper_ofMap (show Builtin.keywords "en" = some _ from rfl) "en"

/-- The starts of title lines with keywords of a kind. -/
def titleStarts (d : Dialect) (kind : KeywordKind) : List (List Char) :=
  (d.keywords kind).map fun keyword => keyword.toList ++ [':']

/-- What lines of a kind may start with, behind their blanks; nothing for the
kinds that are not told by a start. -/
def starts (d : Dialect) : TokenKind → List (List Char)
  | .comment | .language => ["#".toList]
  | .tagLine => ["@".toList]
  | .tableRow => ["|".toList]
  | .docStringSeparator => [Separator.quotes.text.toList, Separator.backticks.text.toList]
  | .featureLine => d.titleStarts .feature
  | .backgroundLine => d.titleStarts .background
  | .scenarioLine => d.titleStarts .scenario
  | .scenarioOutlineLine => d.titleStarts .scenarioOutline
  | .examplesLine => d.titleStarts .examples
  | .stepLine => (d.keywords .step).map String.toList
  | .eof | .empty | .other => []

/-- Lines with this start are of the given kind and have no other start. -/
def marks (d : Dialect) (kind : TokenKind) (start : List Char) : Bool :=
  Matcher.classifyOrder.all fun k =>
    (d.starts k).all fun s => !alike s start || (decide (k = kind) && decide (s = start))

theorem starts_of_keywordKind? (d : Dialect) {kind : TokenKind} {k : KeywordKind}
    (h : kind.keywordKind? = some k) : d.starts kind = d.titleStarts k := by
  cases kind <;> cases h <;> rfl

/-- No two starts of English lines are alike, apart from those of comments. -/
theorem marks_english : ∀ kind ∈ Matcher.classifyOrder, kind ≠ .comment → kind ≠ .language →
    ∀ start ∈ english.starts kind, english.marks kind start = true := by
  decide +kernel

theorem eq_of_marks {d : Dialect} {kind k : TokenKind} {start s line : List Char}
    (h : d.marks kind start = true) (hs : s ∈ d.starts k) (hstart : start <+: line)
    (hline : s <+: line) : k = kind ∧ s = start := by
  have hk := List.all_eq_true.mp h k (Matcher.mem_classifyOrder k)
  have hmark := List.all_eq_true.mp hk s hs
  simpa [alike_of_starts hline hstart] using hmark

end Dialect

namespace Line

variable {l : Line}

theorem startsWith_iff {opening : String} :
    l.startsWith opening = true ↔ opening.toList <+: l.trimmed := by
  rw [startsWith, after?, Option.isSome_iff_exists]
  constructor
  · rintro ⟨rest, hrest⟩
    exact ⟨rest, (List.isPrefixOf?_eq_some_iff_append_eq.mp hrest)⟩
  · rintro ⟨rest, hrest⟩
    exact ⟨rest, List.isPrefixOf?_eq_some_iff_append_eq.mpr hrest⟩

theorem after?_eq_some_iff {opening : String} {rest : List Char} :
    l.after? opening = some rest ↔ l.trimmed = opening.toList ++ rest := by
  rw [after?, List.isPrefixOf?_eq_some_iff_append_eq, eq_comm]

theorem prefix_of_title? {keyword : String} (h : (l.title? keyword).isSome = true) :
    keyword.toList ++ [':'] <+: l.trimmed := by
  rw [title?] at h
  split at h
  · next rest hrest =>
      refine ⟨rest, ?_⟩
      rw [after?_eq_some_iff.mp hrest]
      simp
  · cases h

theorem title?_eq_some {keyword : String} {rest : List Char}
    (h : l.trimmed = keyword.toList ++ ':' :: rest) :
    l.title? keyword = some (String.ofList (Text.trim rest)) := by
  rw [title?, after?_eq_some_iff.mpr h]
  rfl

theorem rest?_eq_some {opening : String} {rest : List Char}
    (h : l.trimmed = opening.toList ++ rest) :
    l.rest? opening = some (String.ofList (Text.trim rest)) := by
  rw [rest?, after?_eq_some_iff.mpr h]
  rfl

theorem prefix_of_rest? {opening : String} (h : (l.rest? opening).isSome = true) :
    opening.toList <+: l.trimmed := by
  rw [rest?, Option.isSome_map] at h
  exact startsWith_iff.mp h

end Line

theorem Separator.ofLine?_eq_some {l : Line} {s : Separator} {rest : List Char}
    (h : l.trimmed = s.text.toList ++ rest) : Separator.ofLine? l = some s := by
  have hstarts : l.startsWith s.text = true := Line.startsWith_iff.mpr ⟨rest, h.symm⟩
  cases s with
  | quotes => simp [Separator.ofLine?, hstarts]
  | backticks =>
      have hquotes : l.startsWith Separator.quotes.text = false :=
        Line.startsWith_eq_false _ (c := '"') rfl (by rw [h]; simp [Separator.text])
      simp [Separator.ofLine?, hstarts, hquotes]

namespace Matcher

variable {m : Matcher} {l : Line} {kind : TokenKind}

theorem lineContent?_of_keywordKind? {k : KeywordKind} (h : kind.keywordKind? = some k)
    (l : Line) : m.lineContent? kind l = m.title? k l := by
  cases kind <;> cases h <;> rfl

theorem exists_keyword_of_title? {k : KeywordKind} (h : (m.title? k l).isSome = true) :
    ∃ start ∈ m.dialect.titleStarts k, start <+: l.trimmed := by
  rw [title?, List.findSome?_isSome_iff] at h
  obtain ⟨keyword, hkeyword, htitle⟩ := h
  rw [Option.isSome_map] at htitle
  exact ⟨_, List.mem_map_of_mem hkeyword, Line.prefix_of_title? htitle⟩

/-- A line of a kind starts as lines of its kind do. -/
theorem exists_start_of_lineContent? (hdoc : m.docString = none) (hempty : kind ≠ .empty)
    (hother : kind ≠ .other) (h : (m.lineContent? kind l).isSome = true) :
    ∃ start ∈ m.dialect.starts kind, start <+: l.trimmed := by
  have hsign : ∀ {sign : String} {content : Content},
      (if l.startsWith sign then some content else none).isSome = true →
      sign.toList <+: l.trimmed := by
    intro sign content hsome
    refine Line.startsWith_iff.mp ?_
    simpa using hsome
  cases kind with
  | eof => cases h
  | empty => exact absurd rfl hempty
  | other => exact absurd rfl hother
  | comment | tagLine | tableRow => exact ⟨_, by simp [Dialect.starts], hsign h⟩
  | language =>
      refine ⟨_, List.mem_singleton_self _, Line.startsWith_iff.mp ?_⟩
      rw [← Bool.not_eq_false]
      intro hsharp
      rw [lineContent?, Line.languageTag?_eq_none hsharp] at h
      cases h
  | featureLine | backgroundLine | scenarioLine | scenarioOutlineLine | examplesLine =>
      exact exists_keyword_of_title? h
  | stepLine =>
      rw [lineContent?, step?, List.findSome?_isSome_iff] at h
      obtain ⟨keyword, hkeyword, hrest⟩ := h
      rw [Option.isSome_map] at hrest
      exact ⟨_, List.mem_map_of_mem hkeyword, Line.prefix_of_rest? hrest⟩
  | docStringSeparator =>
      rw [lineContent?, separator?, hdoc] at h
      obtain ⟨content, hcontent⟩ := Option.isSome_iff_exists.mp h
      obtain ⟨separator, hseparator, -⟩ := Option.bind_eq_some_iff.mp hcontent
      rw [Separator.ofLine?] at hseparator
      have hstart := Line.startsWith_iff.mp
        (List.find?_some (p := fun s : Separator => l.startsWith s.text) hseparator)
      refine ⟨_, ?_, hstart⟩
      cases separator <;> simp [Dialect.starts]

/-- A line with a start that no other kind has is of one kind only. -/
theorem isOnly_of_marks {start : List Char} (hdoc : m.docString = none)
    (hmarks : m.dialect.marks kind start = true) (hne : start ≠ [])
    (hstart : start <+: l.trimmed) (hkind : (m.lineContent? kind l).isSome = true) :
    m.isOnly kind l = true := by
  rw [isOnly, hkind, Bool.true_and, List.all_eq_true]
  intro k _
  by_cases hof : (m.lineContent? k l).isSome = true
  · rw [hof, Bool.not_true, Bool.false_or]
    by_cases hother : k = .other
    · simp [State.mayBe, hother]
    · have hempty : k ≠ .empty := by
        rintro rfl
        have htrimmed : l.trimmed = [] := by simpa [lineContent?, Line.isEmpty] using hof
        rw [htrimmed, List.prefix_nil] at hstart
        exact hne hstart
      obtain ⟨s, hs, hline⟩ := exists_start_of_lineContent? hdoc hempty hother hof
      simp [State.mayBe, (Dialect.eq_of_marks hmarks hs hstart hline).1]
  · simp [hof]

/-! ### What is read on a line -/

/-- The line is of the given kind only, and it has the given content. -/
structure Reads (m : Matcher) (kind : TokenKind) (l : Line) (content : Content) : Prop where
  isOnly : m.isOnly kind l = true
  content : m.lineContent? kind l = some content

theorem content?_eq_none_of_classifyAmong {t read : Token} {next : Matcher}
    {kinds : List TokenKind} (hnot : .other ∉ kinds)
    (h : m.classifyAmong t (kinds ++ [.other]) = .ok (.other, next, read)) :
    ∀ k ∈ kinds, m.content? k t.line = none := by
  induction kinds with
  | nil => exact fun k hk => absurd hk List.not_mem_nil
  | cons k kinds ih =>
      rw [List.mem_cons, not_or] at hnot
      rw [List.cons_append, classifyAmong] at h
      split at h
      · cases h
        exact absurd rfl hnot.1
      · next hmatch =>
          have hk : m.content? k t.line = none := by
            rw [matchAs] at hmatch
            split at hmatch
            · assumption
            · split at hmatch <;> cases hmatch
          exact List.forall_mem_cons.mpr ⟨hk, ih hnot.2 h⟩
      · cases h

theorem lineContent?_eq_none_of_kindOf? (h : m.kindOf? l = some .other)
    (hkind : kind ≠ .other) : m.lineContent? kind l = none := by
  rw [kindOf?] at h
  split at h
  · next k next read hclassify =>
      cases h
      have hsplit : classifyOrder = classifyOrder.dropLast ++ [.other] := rfl
      rw [classify, hsplit] at hclassify
      refine content?_eq_none_of_classifyAmong (by decide) hclassify kind ?_
      revert hkind
      cases kind <;> decide
  · cases h

/-- What a line is told by comes behind its blanks. -/
theorem isSome_lineContent?_congr {m' : Matcher} {l' : Line} (hdialect : m.dialect = m'.dialect)
    (hdoc : m.docString = m'.docString) (hline : l.trimmed = l'.trimmed) :
    (m.lineContent? kind l).isSome = (m'.lineContent? kind l').isSome := by
  have hafter : ∀ opening, l.after? opening = l'.after? opening := by
    intro opening
    rw [Line.after?, Line.after?, hline]
  have hstarts : ∀ opening, l.startsWith opening = l'.startsWith opening := by
    intro opening
    rw [Line.startsWith, Line.startsWith, hafter]
  have htitle : ∀ k, (m.title? k l).isSome = (m'.title? k l').isSome := by
    intro k
    rw [title?, title?, hdialect, List.isSome_findSome?, List.isSome_findSome?]
    simp [Line.title?, hafter]
  have hif : ∀ (b : Bool) (content content' : Content),
      (if b then some content else none).isSome = (if b then some content' else none).isSome := by
    intro b content content'
    cases b <;> rfl
  cases kind with
  | eof | other => rfl
  | empty =>
      rw [lineContent?, lineContent?, Line.isEmpty, Line.isEmpty, hline]
      exact hif _ _ _
  | comment | tagLine | tableRow =>
      rw [lineContent?, lineContent?, hstarts]
      exact hif _ _ _
  | language =>
      have htag : l.languageTag? = l'.languageTag? := by rw [Line.languageTag?, hline]; rfl
      rw [lineContent?, lineContent?, htag, Option.isSome_map, Option.isSome_map]
  | featureLine | backgroundLine | scenarioLine | scenarioOutlineLine | examplesLine =>
      exact htitle _
  | stepLine =>
      rw [lineContent?, lineContent?, step?, step?, hdialect, List.isSome_findSome?,
        List.isSome_findSome?]
      simp [Line.rest?, hafter]
  | docStringSeparator =>
      have hseparator : Separator.ofLine? l = Separator.ofLine? l' := by
        simp [Separator.ofLine?, hstarts]
      rw [lineContent?, lineContent?, separator?, separator?, hdoc, hseparator]
      cases m'.docString with
      | some opened =>
          simp only [hstarts]
          exact hif _ _ _
      | none => cases Separator.ofLine? l' <;> simp [Line.rest?, hafter]

/-- A matcher for English, outside doc strings. -/
structure IsEnglish (m : Matcher) : Prop where
  dialect : m.dialect = .english
  docString : m.docString = none

namespace IsEnglish

theorem marks (hm : m.IsEnglish) {start : List Char} (hstart : start ∈ Dialect.english.starts kind)
    (hcomment : kind ≠ .comment) (hlanguage : kind ≠ .language) :
    m.dialect.marks kind start = true := by
  rw [hm.dialect]
  exact Dialect.marks_english kind (mem_classifyOrder kind) hcomment hlanguage start hstart

theorem reads_of_start (hm : m.IsEnglish) {start : List Char} {content : Content}
    (hstart : start ∈ Dialect.english.starts kind) (hne : start ≠ [])
    (hcomment : kind ≠ .comment) (hlanguage : kind ≠ .language) (hline : start <+: l.trimmed)
    (hcontent : m.lineContent? kind l = some content) : m.Reads kind l content where
  isOnly := isOnly_of_marks hm.docString (hm.marks hstart hcomment hlanguage) hne hline
    (by rw [hcontent]; rfl)
  content := hcontent

theorem reads_tagLine (hm : m.IsEnglish) (h : l.startsWith "@" = true) :
    m.Reads .tagLine l { items := l.words, indent := l.indent } :=
  hm.reads_of_start (List.mem_singleton_self _) (by simp) (by decide) (by decide)
    (Line.startsWith_iff.mp h) (if_pos h)

theorem reads_tableRow (hm : m.IsEnglish) (h : l.startsWith "|" = true) :
    m.Reads .tableRow l { items := l.cells, indent := l.indent } :=
  hm.reads_of_start (List.mem_singleton_self _) (by simp) (by decide) (by decide)
    (Line.startsWith_iff.mp h) (if_pos h)

/-- A line that opens a doc string, with the type of the content. -/
theorem reads_opening (hm : m.IsEnglish) {s : Separator} {rest : List Char}
    (hline : l.trimmed = s.text.toList ++ rest) :
    m.Reads .docStringSeparator l
      { keyword := some s.text, text := some (String.ofList (Text.trim rest)),
        indent := l.indent } := by
  have hcontent : m.separator? l =
      some { keyword := some s.text, text := some (String.ofList (Text.trim rest)),
             indent := l.indent } := by
    rw [separator?, hm.docString]
    simp only [Separator.ofLine?_eq_some hline, Option.bind_some, Line.rest?_eq_some hline,
      Option.map_some]
  refine hm.reads_of_start  ?_ ?_ (by decide) (by decide)
    ⟨rest, hline.symm⟩ hcontent
  · cases s <;> simp [Dialect.starts]
  · cases s <;> simp [Separator.text]

/-- A title line with a keyword and a name. -/
theorem reads_title (hm : m.IsEnglish) {k : KeywordKind} {keyword : String} {rest : List Char}
    (hkind : kind.keywordKind? = some k) (hkeyword : keyword ∈ Dialect.english.keywords k)
    (hline : l.trimmed = keyword.toList ++ ':' :: rest) :
    m.Reads kind l
      { keyword := some keyword, text := some (String.ofList (Text.trim rest)),
        indent := l.indent } := by
  have hstart : keyword.toList ++ [':'] ∈ Dialect.english.starts kind := by
    rw [Dialect.starts_of_keywordKind? _ hkind]
    exact List.mem_map_of_mem hkeyword
  have hfront : keyword.toList ++ [':'] <+: l.trimmed := ⟨rest, by rw [hline]; simp⟩
  have hmarks := hm.marks hstart (by rintro rfl; cases hkind) (by rintro rfl; cases hkind)
  have htitle : m.title? k l =
      some { keyword := some keyword, text := some (String.ofList (Text.trim rest)),
             indent := l.indent } := by
    rw [title?, hm.dialect]
    refine findSome?_eq_some_of_unique hkeyword ?_ ?_
    · rw [Line.title?_eq_some hline]
      rfl
    · intro keyword' hkeyword' hsome
      rw [Option.isSome_map] at hsome
      have hstart' : keyword'.toList ++ [':'] ∈ m.dialect.starts kind := by
        rw [hm.dialect, Dialect.starts_of_keywordKind? _ hkind]
        exact List.mem_map_of_mem hkeyword'
      have hsame := Dialect.eq_of_marks hmarks hstart' hfront (Line.prefix_of_title? hsome)
      exact String.toList_injective (List.append_cancel_right hsame.2)
  rw [← lineContent?_of_keywordKind? hkind] at htitle
  exact ⟨isOnly_of_marks hm.docString hmarks (by simp) hfront (by rw [htitle]; rfl), htitle⟩

/-- A step line with a keyword and a text. -/
theorem reads_step (hm : m.IsEnglish) {keyword : String} {rest : List Char}
    (hkeyword : keyword ∈ Dialect.english.keywords .step)
    (hline : l.trimmed = keyword.toList ++ rest) :
    m.Reads .stepLine l
      { keyword := some keyword, text := some (String.ofList (Text.trim rest)),
        indent := l.indent } := by
  have hstart : keyword.toList ∈ Dialect.english.starts .stepLine := List.mem_map_of_mem hkeyword
  have hfront : keyword.toList <+: l.trimmed := ⟨rest, hline.symm⟩
  have hmarks := hm.marks hstart (by decide) (by decide)
  have hstep : m.step? l =
      some { keyword := some keyword, text := some (String.ofList (Text.trim rest)),
             indent := l.indent } := by
    rw [step?, hm.dialect]
    refine findSome?_eq_some_of_unique hkeyword ?_ ?_
    · rw [Line.rest?_eq_some hline]
      rfl
    · intro keyword' hkeyword' hsome
      rw [Option.isSome_map] at hsome
      have hstart' : keyword'.toList ∈ m.dialect.starts .stepLine := by
        rw [hm.dialect]
        exact List.mem_map_of_mem hkeyword'
      have hsame := Dialect.eq_of_marks hmarks hstart' hfront (Line.prefix_of_rest? hsome)
      exact String.toList_injective hsame.2
  have hne : keyword.toList ≠ [] := by
    obtain ⟨c, cs, hcs, -⟩ :=
      exists_of_isProperKeyword (Dialect.proper_english .step keyword hkeyword)
    simp [hcs]
  exact ⟨isOnly_of_marks hm.docString hmarks hne hfront
    (by rw [lineContent?, hstep]; rfl), hstep⟩

/-- A line that is read as free text without a grammar is of no other kind. -/
theorem reads_other (hm : m.IsEnglish) {l' : Line} (h : english.kindOf? l' = some .other)
    (hline : l.trimmed = l'.trimmed) :
    m.Reads .other l { text := some l.raw, indent := 0 } := by
  have hcontent : m.lineContent? .other l = some { text := some l.raw, indent := 0 } := by
    rw [lineContent?, freeText, hm.docString]
    rfl
  refine ⟨?_, hcontent⟩
  rw [isOnly, hcontent, Option.isSome_some, Bool.true_and, List.all_eq_true]
  intro k hk
  by_cases hother : k = .other
  · simp [State.mayBe, hother]
  · have hnone := lineContent?_eq_none_of_kindOf? h hother
    have hsame : (m.lineContent? k l).isSome = (english.lineContent? k l').isSome :=
      isSome_lineContent?_congr hm.dialect hm.docString hline
    rw [hsame, hnone]
    rfl

end IsEnglish

end Matcher
end Gherkin
