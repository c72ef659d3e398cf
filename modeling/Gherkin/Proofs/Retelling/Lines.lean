import Gherkin.Proofs.Retelling.Document
import Gherkin.Proofs.Text.Words

/-!
# Lines in other places

A source is told again with its lines under other numbers and behind further
blanks.  How a line is read depends on what follows its leading blanks, so it is
read alike in the other place, and what stands in it moves to the right.  Only
comments and free text show the blanks, and free text inside a doc string does
not, because the line that opens the doc string has moved, too.
-/

namespace Gherkin

/-- Other numbers for the lines of a source, and blanks in front of them.  The number zero belongs
to no line. -/
structure Relocation where
  number : Nat → Nat
  blanks : List Char
  number_zero : number 0 = 0
  allBlank : Text.AllBlank blanks

namespace Relocation

/-- The lines under other numbers. -/
def renumbering (f : Nat → Nat) (h : f 0 = 0) : Relocation :=
  ⟨f, [], h, fun _ hc => absurd hc List.not_mem_nil⟩

/-- The lines behind further blanks. -/
def indenting (blanks : List Char) (h : Text.AllBlank blanks) : Relocation :=
  ⟨id, blanks, rfl, h⟩

variable (R : Relocation)

/-- The number of blanks in front of each line. -/
def width : Nat :=
  R.blanks.length

/-- A text behind the blanks. -/
def behind (s : String) : String :=
  String.ofList (R.blanks ++ s.toList)

/-- Columns move to the right; column zero is none. -/
def column (n : Nat) : Nat :=
  if n = 0 then 0 else n + R.width

/-- What becomes of a document when its lines move. -/
def retelling : Retelling where
  place l := ⟨R.number l.line, R.column l.column⟩
  comment c := ⟨⟨R.number c.location.line, c.location.column⟩, R.behind c.text⟩
  description s := String.ofList (Text.hang R.blanks s.toList)

theorem retelling_renumbering (f : Nat → Nat) (h : f 0 = 0) :
    (renumbering f h).retelling = .renumbering f := by
  have hplace (l : Location) : (renumbering f h).retelling.place l = l.renumber f := by
    by_cases hl : l.column = 0
    · simp [retelling, renumbering, Location.renumber, column, hl]
    · simp [retelling, renumbering, Location.renumber, column, hl, width]
  have hcomment (c : Comment) : (renumbering f h).behind c.text = c.text := by
    simp [behind, renumbering]
  have hdescription (s : String) : (renumbering f h).retelling.description s = s := by
    simp [retelling, renumbering]
  rw [Retelling.renumbering, retelling]
  refine congr (congrArg₂ Retelling.mk (funext hplace) (funext fun c => ?_)) (funext hdescription)
  rw [hcomment]
  rfl

theorem retelling_indenting (blanks : List Char) (h : Text.AllBlank blanks) :
    (indenting blanks h).retelling = .indenting blanks :=
  rfl

theorem column_of_pos {n : Nat} (h : 0 < n) : R.column n = n + R.width :=
  if_neg (Nat.ne_of_gt h)

theorem retelling_place_zero : R.retelling.place ⟨0, 0⟩ = ⟨0, 0⟩ :=
  congrArg (Location.mk · 0) R.number_zero

theorem retelling_place_succ (line column : Nat) :
    R.retelling.place ⟨line, column + 1⟩ = ⟨R.number line, column + R.width + 1⟩ := by
  rw [Nat.add_right_comm, ← R.column_of_pos (Nat.succ_pos column)]
  rfl

end Relocation

/-- The text in its new place on its line. -/
def Span.relocate (R : Relocation) (s : Span) : Span :=
  { s with column := R.column s.column }

theorem Text.place_add {α : Type} (width : α → Nat) (start n : Nat) (pieces : List (List α)) :
    place width (start + n) pieces = (place width start pieces).map (Prod.map (· + n) id) := by
  induction pieces generalizing start with
  | nil => rfl
  | cons piece pieces ih =>
      have hnext : start + n + totalWidth width piece + 1 =
          start + totalWidth width piece + 1 + n := by
        omega
      rw [place, hnext, ih]
      rfl

variable (R : Relocation)

/-! ### Lines -/

namespace Line

/-- The line behind further blanks. -/
def relocate (l : Line) : Line :=
  ⟨R.blanks ++ l.chars⟩

variable (l : Line)

@[simp] theorem trimmed_relocate : (l.relocate R).trimmed = l.trimmed :=
  Text.trimStart_append_of_allBlank R.allBlank l.chars

@[simp] theorem indent_relocate : (l.relocate R).indent = l.indent + R.width := by
  rw [indent, relocate, List.takeWhile_append_of_pos R.allBlank, List.length_append, Nat.add_comm]
  rfl

@[simp] theorem value_relocate : (l.relocate R).value = l.value :=
  congrArg String.ofList (Text.trim_append_left_of_allBlank R.allBlank l.chars)

@[simp] theorem raw_relocate : (l.relocate R).raw = R.behind l.raw := by
  simp [raw, relocate, Relocation.behind]

@[simp] theorem isEmpty_relocate : (l.relocate R).isEmpty = l.isEmpty := by
  rw [isEmpty, trimmed_relocate, isEmpty]

/-- A line loses the same characters more, and is left with the same text. -/
@[simp] theorem dropIndent_relocate (n : Nat) :
    (l.relocate R).dropIndent (n + R.width) = l.dropIndent n := by
  rw [dropIndent, dropIndent, indent_relocate, trimmed_relocate]
  by_cases h : l.indent < n
  · rw [if_pos h, if_pos (Nat.add_lt_add_right h R.width)]
  · rw [if_neg h, if_neg fun hless => h (Nat.lt_of_add_lt_add_right hless), Nat.add_comm]
    exact List.drop_length_add_append n

@[simp] theorem after?_relocate (opening : String) :
    (l.relocate R).after? opening = l.after? opening := by
  rw [after?, trimmed_relocate, after?]

@[simp] theorem startsWith_relocate (opening : String) :
    (l.relocate R).startsWith opening = l.startsWith opening := by
  rw [startsWith, after?_relocate, startsWith]

@[simp] theorem rest?_relocate (opening : String) :
    (l.relocate R).rest? opening = l.rest? opening := by
  rw [rest?, after?_relocate, rest?]

@[simp] theorem title?_relocate (keyword : String) :
    (l.relocate R).title? keyword = l.title? keyword := by
  rw [title?, after?_relocate, title?]

@[simp] theorem languageTag?_relocate : (l.relocate R).languageTag? = l.languageTag? := by
  rw [languageTag?, trimmed_relocate, languageTag?]

@[simp] theorem ofLine?_relocate : Separator.ofLine? (l.relocate R) = Separator.ofLine? l := by
  simp only [Separator.ofLine?, startsWith_relocate]

/-- The pieces of a text stand behind the start of the text. -/
theorem map_place_relocate {α : Type} (width : α → Nat) (start : Nat) (pieces : List (List α)) :
    Text.place width (start + R.width + 1) pieces =
      (Text.place width (start + 1) pieces).map (Prod.map R.column id) := by
  rw [Nat.add_right_comm, Text.place_add]
  refine List.map_congr_left fun piece hpiece => ?_
  have hpos : 0 < piece.1 := Nat.lt_of_lt_of_le (Nat.succ_pos start) (Text.le_of_mem_place hpiece)
  exact Prod.ext (R.column_of_pos hpos).symm rfl

@[simp] theorem words_relocate : (l.relocate R).words = l.words.map (Span.relocate R) := by
  rw [words, words, indent_relocate, trimmed_relocate, Text.words, Text.words, map_place_relocate,
    List.filter_map, List.map_map, List.map_map]
  rfl

@[simp] theorem cells_relocate : (l.relocate R).cells = l.cells.map (Span.relocate R) := by
  simp only [cells, indent_relocate, trimmed_relocate, map_place_relocate, ← List.map_tail,
    ← List.map_dropLast, List.map_map]
  refine List.map_congr_left fun piece hpiece => ?_
  have hpos : 0 < piece.1 := Nat.lt_of_lt_of_le (Nat.succ_pos l.indent)
    (Text.le_of_mem_place (List.mem_of_mem_tail ((List.dropLast_subset _) hpiece)))
  simp only [Function.comp_apply, Prod.map_fst, Prod.map_snd, id_eq, Span.ofCell, Span.relocate,
    R.column_of_pos hpos, R.column_of_pos (Nat.add_pos_left hpos _), Nat.add_right_comm]

end Line

/-! ### Readings -/

/-- The kinds of tokens that stand in the first column, whatever blanks their lines start with. -/
def TokenKind.isFlush : TokenKind → Bool
  | eof | comment | other => true
  | _ => false

/-- The kinds of tokens whose text shows the leading blanks of their line, inside a doc string or
outside. -/
def TokenKind.showsBlanks (inside : Bool) : TokenKind → Bool
  | comment => true
  | other => !inside
  | _ => false

/-- The parts of a line for a kind of tokens when the line stands behind further blanks. -/
def Content.relocate (kind : TokenKind) (inside : Bool) (c : Content) : Content where
  keyword := c.keyword
  text := if kind.showsBlanks inside then some (R.behind (c.text.getD "")) else c.text
  items := c.items.map (Span.relocate R)
  indent := if kind.isFlush then c.indent else c.indent + R.width

/-- The reading of a line when the line stands behind further blanks. -/
def Reading.relocate (inside : Bool) (r : Reading) : Reading where
  toContent := r.toContent.relocate R r.kind inside
  kind := r.kind
  dialect := r.dialect

/-- The token of a line in its new place, not read yet. -/
def Token.relocate (t : Token) : Token :=
  ⟨t.line.map (Line.relocate R), R.number t.number, none⟩

/-- The token of a line in its new place, read as it was read. -/
def Token.relocateRead (inside : Bool) (t : Token) : Token :=
  { t.relocate R with reading := t.reading.map (Reading.relocate R inside) }

/-- The error in its new place with which a state refuses a token. -/
theorem State.refusal_relocate (s : State) {t : Token} (ht : t.reading = none) :
    s.refusal (t.relocate R) = (s.refusal t).retell R.retelling := by
  obtain ⟨line, number, reading⟩ := t
  obtain rfl : reading = none := ht
  cases line with
  | none => rfl
  | some l =>
      change SyntaxError.mk (.unexpectedToken s.expected (l.relocate R).value)
        ⟨R.number number, (l.relocate R).indent + 1⟩ = _
      rw [Line.value_relocate, Line.indent_relocate, ← R.retelling_place_succ]
      rfl

/-! ### Matchers -/

namespace Matcher

/-- The matcher whose open doc string was opened in its new place. -/
def relocate (m : Matcher) : Matcher :=
  { m with
    docString := m.docString.map fun opened =>
      { opened with indent := opened.indent + R.width } }

variable (m : Matcher)

@[simp] theorem dialect_relocate : (m.relocate R).dialect = m.dialect := rfl

@[simp] theorem resolver_relocate : (m.relocate R).resolver = m.resolver := rfl

theorem title?_relocate (kind : KeywordKind) (l : Line) {k : TokenKind} (hk : k.isFlush = false)
    (inside : Bool) :
    (m.relocate R).title? kind (l.relocate R) =
      (m.title? kind l).map (Content.relocate R k inside) := by
  have hcontent (keyword title : String) :
      Content.relocate R k inside
        { keyword := some keyword, text := some title, indent := l.indent } =
      { keyword := some keyword, text := some title, indent := l.indent + R.width } := by
    cases k <;> first | rfl | cases hk
  rw [title?, title?, List.map_findSome?, dialect_relocate]
  refine congrArg (fun f => List.findSome? f _) (funext fun keyword => ?_)
  simp only [Function.comp_apply, Line.title?_relocate, Line.indent_relocate, Option.map_map,
    Function.comp_def, hcontent]

theorem step?_relocate (l : Line) (inside : Bool) :
    (m.relocate R).step? (l.relocate R) =
      (m.step? l).map (Content.relocate R .stepLine inside) := by
  rw [step?, step?, List.map_findSome?, dialect_relocate]
  refine congrArg (fun f => List.findSome? f _) (funext fun keyword => ?_)
  simp only [Function.comp_apply, Line.rest?_relocate, Line.indent_relocate, Option.map_map]
  rfl

theorem separator?_relocate (l : Line) (inside : Bool) :
    (m.relocate R).separator? (l.relocate R) =
      (m.separator? l).map (Content.relocate R .docStringSeparator inside) := by
  rw [separator?, separator?, relocate]
  cases m.docString with
  | some opened =>
      simp only [Option.map_some, Line.startsWith_relocate, Line.indent_relocate]
      split <;> rfl
  | none =>
      simp only [Option.map_none, Line.ofLine?_relocate, Line.rest?_relocate,
        Line.indent_relocate, Option.map_bind, Option.map_map, Function.comp_def]
      rfl

/-- Inside a doc string free text does not show that its line has moved. -/
theorem freeText_relocate (l : Line) :
    (m.relocate R).freeText (l.relocate R) =
      if m.docString.isSome then m.freeText l else R.behind (m.freeText l) := by
  rw [freeText, freeText, relocate]
  cases m.docString with
  | some opened =>
      simp only [Option.map_some, Line.dropIndent_relocate, Option.isSome_some, if_true]
  | none => exact l.raw_relocate R

theorem lineContent?_relocate (kind : TokenKind) (l : Line) :
    (m.relocate R).lineContent? kind (l.relocate R) =
      (m.lineContent? kind l).map (Content.relocate R kind m.docString.isSome) := by
  cases kind with
  | eof => rfl
  | empty =>
      simp only [lineContent?, Line.isEmpty_relocate, Line.indent_relocate]
      split <;> rfl
  | comment =>
      simp only [lineContent?, Line.startsWith_relocate, Line.raw_relocate]
      split <;> rfl
  | tagLine =>
      simp only [lineContent?, Line.startsWith_relocate, Line.words_relocate,
        Line.indent_relocate]
      split <;> rfl
  | tableRow =>
      simp only [lineContent?, Line.startsWith_relocate, Line.cells_relocate,
        Line.indent_relocate]
      split <;> rfl
  | featureLine | backgroundLine | scenarioLine | scenarioOutlineLine | examplesLine =>
      exact m.title?_relocate R _ l rfl _
  | stepLine => exact m.step?_relocate R l _
  | docStringSeparator => exact m.separator?_relocate R l _
  | language =>
      simp only [lineContent?, Line.languageTag?_relocate, Line.indent_relocate, Option.map_map]
      rfl
  | other =>
      rw [lineContent?, lineContent?, freeText_relocate]
      cases m.docString.isSome <;> rfl

theorem content?_relocate (kind : TokenKind) (line : Option Line) :
    (m.relocate R).content? kind (line.map (Line.relocate R)) =
      (m.content? kind line).map (Content.relocate R kind m.docString.isSome) := by
  cases line with
  | some l => exact m.lineContent?_relocate R kind l
  | none =>
      simp only [content?, Option.map_none]
      by_cases hkind : kind = .eof
      · rw [if_pos hkind, hkind]
        rfl
      · rw [if_neg hkind]
        rfl

@[simp] theorem isOf_relocate (kind : TokenKind) (t : Token) :
    (m.relocate R).isOf kind (t.relocate R) = m.isOf kind t := by
  rw [isOf, Token.relocate, content?_relocate, Option.isSome_map, isOf]

@[simp] theorem isBetweenTags_relocate (t : Token) :
    (m.relocate R).isBetweenTags (t.relocate R) = m.isBetweenTags t := by
  simp only [isBetweenTags, isOf_relocate]

theorem examplesAhead_append_relocate {rest rest' : List Token}
    (hrest : (m.relocate R).examplesAhead rest' = m.examplesAhead rest) (front : List Token) :
    (m.relocate R).examplesAhead (front.map (Token.relocate R) ++ rest') =
      m.examplesAhead (front ++ rest) := by
  induction front with
  | nil => exact hrest
  | cons t front ih =>
      rw [List.map_cons, List.cons_append, List.cons_append, examplesAhead, examplesAhead, ih,
        isOf_relocate, isBetweenTags_relocate]

theorem examplesAhead_map_relocate (ts : List Token) :
    (m.relocate R).examplesAhead (ts.map (Token.relocate R)) = m.examplesAhead ts := by
  have hend : (m.relocate R).examplesAhead [] = m.examplesAhead [] := rfl
  have happend := m.examplesAhead_append_relocate R hend ts
  rwa [List.append_nil, List.append_nil] at happend

theorem docStringAfter_relocate (l : Line) :
    (m.relocate R).docStringAfter (l.relocate R) =
      (m.docStringAfter l).map fun opened => { opened with indent := opened.indent + R.width } := by
  rw [docStringAfter, docStringAfter, relocate]
  cases m.docString with
  | some opened => rfl
  | none =>
      simp only [Option.map_none, Line.ofLine?_relocate, Line.indent_relocate, Option.map_map]
      rfl

theorem after_relocate {kind : TokenKind} {t : Token} (h : kind = .language → t.isEof = false)
    (content : Content) (inside : Bool) :
    (m.relocate R).after kind (t.relocate R) (content.relocate R kind inside) =
      ((m.after kind t content).map (relocate R)).mapError (DialectError.retell R.retelling) := by
  cases kind with
  | language =>
      have hplace : (⟨(t.relocate R).number, (t.relocate R).lineIndent + 1⟩ : Location) =
          R.retelling.place ⟨t.number, t.lineIndent + 1⟩ := by
        obtain ⟨line, number, reading⟩ := t
        cases line with
        | none => cases h rfl
        | some l =>
            rw [R.retelling_place_succ]
            exact congrArg (fun n => Location.mk (R.number number) (n + 1)) (l.indent_relocate R)
      have htext : (content.relocate R .language inside).text = content.text := rfl
      rw [after, after, htext, hplace, resolver_relocate, Resolver.resolve_retell]
      cases m.resolver.resolve (content.text.getD "") ⟨t.number, t.lineIndent + 1⟩ <;> rfl
  | docStringSeparator =>
      obtain ⟨line, number, reading⟩ := t
      cases line with
      | none => rfl
      | some l =>
          simp only [after, Token.relocate, Option.map_some, Option.bind_some,
            docStringAfter_relocate]
          rfl
  | _ => rfl

/-- A token is read alike in its new place. -/
theorem matchAs_relocate (kind : TokenKind) (t : Token) :
    (m.relocate R).matchAs kind (t.relocate R) =
      ((m.matchAs kind t).map (Option.map
        (Prod.map (relocate R) (Token.relocateRead R m.docString.isSome)))).mapError
          (DialectError.retell R.retelling) := by
  have hcontent := m.content?_relocate R kind t.line
  rw [matchAs, matchAs, Token.relocate, hcontent, ← Token.relocate]
  cases hof : m.content? kind t.line with
  | none => rfl
  | some content =>
      have hline : kind = .language → t.isEof = false := by
        rintro rfl
        cases hl : t.line with
        | none =>
            rw [hl] at hof
            cases hof
        | some l => rw [Token.isEof, hl, Option.isNone_some]
      simp only [Option.map_some, m.after_relocate R hline]
      cases m.after kind t content <;> rfl

end Matcher

/-- How a token is accepted in its new place. -/
def Acceptance.relocate (inside : Bool) (a : Acceptance) : Acceptance :=
  ⟨a.transition, a.matcher.relocate R, a.token.relocateRead R inside⟩

/-- The same transition accepts a token in its new place, if examples come next in both
places or in neither. -/
theorem Matcher.choose_relocate (m : Matcher) (t : Token) {following following' : List Token}
    (hahead : (m.relocate R).examplesAhead following' = m.examplesAhead following)
    (transitions : List Transition) :
    (m.relocate R).choose (t.relocate R) following' transitions =
      ((m.choose t following transitions).map (Option.map
        (Acceptance.relocate R m.docString.isSome))).mapError
          (DialectError.retell R.retelling) := by
  induction transitions with
  | nil => rfl
  | cons transition transitions ih =>
      rw [choose, choose, matchAs_relocate]
      rcases m.matchAs transition.kind t with e | _ | ⟨next, read⟩
      · rfl
      · exact ih
      · simp only [Except.map, Option.map_some, Prod.map_apply, Except.mapError, hahead]
        split
        · exact ih
        · rfl

end Gherkin
