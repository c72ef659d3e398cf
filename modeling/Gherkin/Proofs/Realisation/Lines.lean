import Gherkin.Proofs.Dialect.Builtin
import Gherkin.Proofs.Realisation.Basic
import Gherkin.Proofs.Text.Trim

/-!
# The kinds of a line

What a line may be read as depends on its first character that is not blank.
With proper keywords a blank line is of no kind but its own and free text, and a
comment may be a pragma besides.
-/

namespace Gherkin

namespace Line

variable {l : Line}

/-! ### Indentation -/

section Indented

variable {blanks : List Char} (hblanks : Text.AllBlank blanks)

include hblanks

theorem trimmed_indented (cs : List Char) :
    (⟨blanks ++ cs⟩ : Line).trimmed = Text.trimStart cs :=
  Text.trimStart_append_of_allBlank hblanks cs

theorem trimmed_indented_cons {c : Char} (hc : Text.isBlank c = false) (cs : List Char) :
    (⟨blanks ++ c :: cs⟩ : Line).trimmed = c :: cs := by
  rw [trimmed_indented hblanks]
  exact List.dropWhile_cons_of_neg (by simp [hc])

theorem indent_indented {c : Char} (hc : Text.isBlank c = false) (cs : List Char) :
    (⟨blanks ++ c :: cs⟩ : Line).indent = blanks.length := by
  change ((blanks ++ c :: cs).takeWhile Text.isBlank).length = blanks.length
  rw [List.takeWhile_append_of_pos hblanks, List.takeWhile_cons_of_neg (by simp [hc]),
    List.append_nil]

theorem le_indent_indented (cs : List Char) :
    blanks.length ≤ (⟨blanks ++ cs⟩ : Line).indent := by
  change blanks.length ≤ ((blanks ++ cs).takeWhile Text.isBlank).length
  rw [List.takeWhile_append_of_pos hblanks, List.length_append]
  exact Nat.le_add_right _ _

/-- A line loses just the indentation that it has been given. -/
theorem dropIndent_indented (cs : List Char) :
    (⟨blanks ++ cs⟩ : Line).dropIndent blanks.length = cs := by
  rw [dropIndent, if_neg (Nat.not_lt.mpr (le_indent_indented hblanks cs))]
  exact List.drop_left

end Indented

/-! ### First characters -/

/-- A line does not start with a text that starts with another character. -/
theorem after?_eq_none (opening : String) {c : Char}
    (hopening : opening.toList.head? = some c) (hhead : l.trimmed.head? ≠ some c) :
    l.after? opening = none := by
  obtain ⟨cs, hcs⟩ := List.head?_eq_some_iff.mp hopening
  rw [after?, hcs]
  cases htrimmed : l.trimmed with
  | nil => rfl
  | cons d ds =>
      rw [htrimmed, List.head?_cons, ne_eq, Option.some.injEq] at hhead
      exact if_neg (by simpa using Ne.symm hhead)

theorem startsWith_eq_false (opening : String) {c : Char}
    (hopening : opening.toList.head? = some c) (hhead : l.trimmed.head? ≠ some c) :
    l.startsWith opening = false := by
  rw [startsWith, after?_eq_none opening hopening hhead]
  rfl

/-- Every pragma is a comment. -/
theorem languageTag?_eq_none (h : l.startsWith "#" = false) : l.languageTag? = none := by
  have hsharp : "#".toList.isPrefixOf? l.trimmed = none := by
    rwa [startsWith, after?, Option.isSome_eq_false_iff, Option.isNone_iff_eq_none] at h
  rw [languageTag?, hsharp]
  rfl

/-- An empty line has no first character. -/
theorem head?_of_isEmpty (h : l.isEmpty = true) : l.trimmed.head? = none := by
  rw [List.isEmpty_iff.mp h]
  rfl

/-- A line that starts with a text starts with its first character. -/
theorem head?_of_startsWith {opening : String} {c : Char}
    (hopening : opening.toList.head? = some c) (h : l.startsWith opening = true) :
    l.trimmed.head? = some c := by
  refine Classical.byContradiction fun hhead => ?_
  rw [startsWith_eq_false opening hopening hhead] at h
  cases h

end Line

namespace Matcher

variable {m : Matcher} {l : Line}

/-- A line whose first character starts no keyword has no title. -/
theorem title?_eq_none (hproper : m.dialect.Proper)
    (hhead : ∀ c ∉ markChars, l.trimmed.head? ≠ some c) (kind : KeywordKind) :
    m.title? kind l = none := by
  rw [title?, List.findSome?_eq_none_iff]
  intro keyword hkeyword
  obtain ⟨c, cs, hcs, -, hc⟩ := exists_of_isProperKeyword (hproper kind keyword hkeyword)
  rw [Line.title?, Line.after?_eq_none keyword (by rw [hcs]; rfl) (hhead c hc)]
  rfl

theorem step?_eq_none (hproper : m.dialect.Proper)
    (hhead : ∀ c ∉ markChars, l.trimmed.head? ≠ some c) : m.step? l = none := by
  rw [step?, List.findSome?_eq_none_iff]
  intro keyword hkeyword
  obtain ⟨c, cs, hcs, -, hc⟩ := exists_of_isProperKeyword (hproper .step keyword hkeyword)
  rw [Line.rest?, Line.after?_eq_none keyword (by rw [hcs]; rfl) (hhead c hc)]
  rfl

theorem separator?_eq_none (hdoc : m.docString = none) (hquotes : l.trimmed.head? ≠ some '"')
    (hbackticks : l.trimmed.head? ≠ some '\x60') : m.separator? l = none := by
  have hquotes : l.startsWith Separator.quotes.text = false :=
    Line.startsWith_eq_false _ rfl hquotes
  have hbackticks : l.startsWith Separator.backticks.text = false :=
    Line.startsWith_eq_false _ rfl hbackticks
  rw [separator?, hdoc, Separator.ofLine?]
  simp [hquotes, hbackticks]

/-- A line that is empty or starts with a sharp is of no kind but four. -/
theorem lineContent?_eq_none (hproper : m.dialect.Proper) (hdoc : m.docString = none)
    (hhead : ∀ c, c ≠ '#' → l.trimmed.head? ≠ some c) {kind : TokenKind}
    (hkind : kind ∉ [.empty, .comment, .language, .other]) : m.lineContent? kind l = none := by
  have hmark : ∀ c ∉ markChars, l.trimmed.head? ≠ some c := by
    intro c hc
    refine hhead c ?_
    rintro rfl
    exact hc (by decide)
  cases kind with
  | eof => rfl
  | empty | comment | language | other => exact absurd (by simp) hkind
  | tagLine => exact if_neg (by simp [Line.startsWith_eq_false "@" rfl (hhead _ (by decide))])
  | tableRow => exact if_neg (by simp [Line.startsWith_eq_false "|" rfl (hhead _ (by decide))])
  | docStringSeparator =>
      exact separator?_eq_none hdoc (hhead _ (by decide)) (hhead _ (by decide))
  | stepLine => exact step?_eq_none hproper hmark
  | featureLine | backgroundLine | scenarioLine | scenarioOutlineLine | examplesLine =>
      exact title?_eq_none hproper hmark _

/-- The kinds of an empty line. -/
theorem lineContent?_of_isEmpty (hproper : m.dialect.Proper) (hdoc : m.docString = none)
    (h : l.isEmpty = true) (kind : TokenKind) :
    (m.lineContent? kind l).isSome = State.mayBe .empty kind := by
  have hhead : ∀ c, l.trimmed.head? ≠ some c := by simp [Line.head?_of_isEmpty h]
  cases kind with
  | other => rfl
  | empty => simp [lineContent?, h, State.mayBe]
  | comment => simp [lineContent?, State.mayBe, Line.startsWith_eq_false "#" rfl (hhead _)]
  | language => simp [lineContent?, State.mayBe,
      Line.languageTag?_eq_none (Line.startsWith_eq_false "#" rfl (hhead _))]
  | _ =>
      rw [lineContent?_eq_none hproper hdoc (fun c _ => hhead c) (by decide)]
      rfl

/-- The kinds of a comment, which may be a pragma, too. -/
theorem lineContent?_of_comment (hproper : m.dialect.Proper) (hdoc : m.docString = none)
    (h : l.startsWith "#" = true) {kind : TokenKind}
    (hkind : kind = .language → l.languageTag? = none) :
    (m.lineContent? kind l).isSome = State.mayBe .comment kind := by
  have hsharp : l.trimmed.head? = some '#' := Line.head?_of_startsWith rfl h
  have hhead : ∀ c, c ≠ '#' → l.trimmed.head? ≠ some c := by
    intro c hc
    simpa [hsharp] using Ne.symm hc
  cases kind with
  | other => rfl
  | comment => simp [lineContent?, h, State.mayBe]
  | language => simp [lineContent?, hkind rfl, State.mayBe]
  | empty =>
      obtain ⟨cs, hcs⟩ := List.head?_eq_some_iff.mp hsharp
      simp [lineContent?, Line.isEmpty, hcs, State.mayBe]
  | _ =>
      rw [lineContent?_eq_none hproper hdoc hhead (by decide)]
      rfl

end Matcher
end Gherkin
