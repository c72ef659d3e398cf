import Gherkin.Proofs.Parser.Dialects
import Gherkin.Proofs.Retelling.Sources
import Gherkin.Proofs.Text.Splitting

/-!
# Parsing behind further blanks

Blanks in front of all lines of a document move everything in it to the right,
and nothing else.  In particular the content of doc strings stays as it is.
-/

namespace Gherkin

/-- The text of lines, each of which ends in a line feed. -/
def textOf (lines : List (List Char)) : String :=
  String.ofList (lines.flatMap fun line => line ++ ['\n'])

/-- The source of a text of lines. -/
theorem Source.ofText_textOf {lines : List (List Char)} (h : ∀ line ∈ lines, '\n' ∉ line) :
    ofText (textOf lines) = ofLines (lines.map dropReturn) := by
  rw [ofText, textOf, String.toList_ofList, textLines_flatMap h]
  rfl

/-- Carriage returns at the ends of lines are dropped behind a text in front of the lines as
without it. -/
theorem Source.ofText_textOf_append {lines : List (List Char)} (h : ∀ line ∈ lines, '\n' ∉ line)
    {front : List Char} (hbreak : '\n' ∉ front) (hreturn : '\r' ∉ front) :
    ofText (textOf (lines.map (front ++ ·))) =
      ofLines ((lines.map dropReturn).map (front ++ ·)) := by
  have hlines : ∀ line ∈ lines.map (front ++ ·), '\n' ∉ line := by
    intro line hline
    obtain ⟨line, hmem, rfl⟩ := List.mem_map.mp hline
    simp [hbreak, h line hmem]
  rw [ofText_textOf hlines, List.map_map, List.map_map]
  exact congrArg ofLines (List.map_congr_left fun line _ => dropReturn_append hreturn line)

namespace Parser

variable {lines : List (List Char)} {blanks : List Char}

/-- A default language that cannot be used fails at the first column of the first line. -/
theorem parse_of_resolveDefault_error {p : Parser} {e : DialectError}
    (h : p.resolver.resolveDefault = .error e) (lines : List (List Char)) :
    e.location = ⟨1, 1⟩ ∧ p.parse (.ofLines lines) = .error (.dialect e) := by
  have hreader : p.reader = .error e := by rw [reader, Matcher.start, h]
  have hdialect : p.resolver.dialectFor p.resolver.defaultLanguage ⟨1, 1⟩ = .error e :=
    congrArg (Except.map Prod.fst) h
  rw [parse_ofLines, readTokens, hreader]
  exact ⟨(Resolver.eq_of_dialectFor_eq_error hdialect).2, rfl⟩

/-- Lines are read alike in their new places. -/
theorem readTokens_relocate {p : Parser} {r : Reader} (hp : p.reader = .ok r) (R : Relocation)
    {ts : List Token} (hts : ∀ t ∈ ts, t.Suits R) :
    p.readTokens (ts.map (Token.relocate R)) = R.retelling.outcome (p.readTokens ts) := by
  obtain ⟨m, rfl, hm⟩ := exists_start_outside hp
  have hend (m : Matcher) : (m.relocate R).examplesAhead [] = m.examplesAhead [] := rfl
  obtain ⟨hretold, hsound⟩ := (Reader.start_retold R p.limit hm).readFront
    (fun _ => Reader.start_sound R p.limit hm) hts hend
  simp only [readTokens, hp, Reader.complete, Reader.read_eq_readFront]
  exact hretold.outcome_closeRule hsound

/-- Lines of a source behind further blanks. -/
theorem parse_relocate {p : Parser} {r : Reader} (hp : p.reader = .ok r) {R : Relocation}
    (hnumber : ∀ n, R.number n = n) (hlines : ∀ line ∈ lines, '\n' ∉ line)
    (hmark : ∀ line ∈ lines, line.head? ≠ some '\uFEFF') :
    p.parse (.ofLines (lines.map (R.blanks ++ ·))) =
      R.retelling.outcome (p.parse (.ofLines lines)) := by
  have hsuits : ∀ t ∈ Source.tokens 0 (.ofLines lines), t.Suits R :=
    Source.suits_tokens (fun line hline hbreak => absurd hbreak (hlines line hline)) hmark 0
  rw [parse_ofLines, parse_ofLines, Source.tokens_relocate (fun _ _ => hnumber _) hmark]
  exact readTokens_relocate hp R hsuits

/-- Spaces and tabs in front of every line of a document move all its places to the right by their
number, except for the first column of comments and the column zero of the end of the source.
They stand in front of the text of each comment, and a description shows them only in front of its
lines.  Nothing else changes, neither the content of a doc string nor any error.  A default
language that cannot be used fails at the first column of the first line in any case. -/
theorem parse_indented (p : Parser) (hlines : ∀ line ∈ lines, '\n' ∉ line)
    (hmark : ∀ line ∈ lines, line.head? ≠ some '\uFEFF')
    (hblanks : ∀ c ∈ blanks, c = ' ' ∨ c = '\t') :
    let outcome := p.parseText (textOf lines)
    let indented := p.parseText (textOf (lines.map (blanks ++ ·)))
    (match p.resolver.resolveDefault with
      | .ok _ => indented = (Retelling.indenting blanks).outcome outcome
      | .error e => e.location = ⟨1, 1⟩ ∧ outcome = .error (.dialect e) ∧ indented = outcome) ∧
    ∀ description, Text.flushLeft ((Retelling.indenting blanks).description description).toList =
      Text.flushLeft description.toList := by
  have hblank : Text.AllBlank blanks := by
    intro c hc
    rcases hblanks c hc with rfl | rfl <;> rfl
  have hbreak : '\n' ∉ blanks := fun hc => by simpa using hblanks _ hc
  have hreturn : '\r' ∉ blanks := fun hc => by simpa using hblanks _ hc
  simp only [parseText, Source.ofText_textOf hlines,
    Source.ofText_textOf_append hlines hbreak hreturn]
  refine ⟨?_, fun description => ?_⟩
  · cases hdefault : p.resolver.resolveDefault with
    | error e =>
        have hfails := parse_of_resolveDefault_error hdefault
        exact ⟨(hfails []).1, (hfails _).2, (hfails _).2.trans (hfails _).2.symm⟩
    | ok result =>
        have hdropped : ∀ line ∈ lines.map dropReturn,
            '\n' ∉ line ∧ line.head? ≠ some '\uFEFF' := by
          intro line hline
          obtain ⟨line, hmem, rfl⟩ := List.mem_map.mp hline
          exact ⟨fun hmem' => hlines line hmem (dropReturn_subset line hmem'),
            head?_dropReturn (hmark line hmem)⟩
        rw [← Relocation.retelling_indenting blanks hblank]
        exact parse_relocate (R := .indenting blanks hblank) (reader_of_resolveDefault hdefault)
          (fun _ => rfl) (fun line hline => (hdropped line hline).1)
          fun line hline => (hdropped line hline).2
  · rw [Retelling.indenting]
    simp only [String.toList_ofList]
    exact Text.flushLeft_hang hblank hbreak _

/-- A document with a comment, a description of three lines and a doc string, two lines of which
are indented less and more than its separators. -/
theorem parse_indented_docString :
    let lines := ["# c", "Feature: f", " x", "", "y", "Scenario: s", "Given g", "  \"\"\"", " less",
      "    more", "", "  \"\"\""].map String.toList
    let blanks := [' ', '\t']
    ∃ document, parseText {} (textOf lines) = .ok document ∧
      parseText {} (textOf (lines.map (blanks ++ ·))) =
        .ok (document.retell (.indenting blanks)) ∧
      document.feature.any fun f => f.description = some "x\n\ny" ∧ f.definitions.any fun d =>
        d.steps.any fun s => s.argument = some (.docString ⟨⟨8, 3⟩, none, "less\n  more\n"⟩) := by
  intro lines blanks
  have hdefault : Resolver.builtin.resolveDefault.toOption.isSome = true := by decide +kernel
  have hparsed : (parseText {} (textOf lines)).toOption.any (fun document =>
      document.feature.any fun f => f.description = some "x\n\ny" ∧ f.definitions.any fun d =>
        d.steps.any fun s =>
          s.argument = some (.docString ⟨⟨8, 3⟩, none, "less\n  more\n"⟩)) = true := by
    decide +kernel
  have hlines : ∀ line ∈ lines, '\n' ∉ line := by decide
  have hmark : ∀ line ∈ lines, line.head? ≠ some '\uFEFF' := by decide
  have hblanks : ∀ c ∈ blanks, c = ' ' ∨ c = '\t' := by simp [blanks]
  obtain ⟨hindented, -⟩ := parse_indented {} hlines hmark hblanks
  obtain ⟨result, hresolve⟩ := exists_ok_of_isSome hdefault
  obtain ⟨document, hdocument, hparsed⟩ := exists_ok_of_any hparsed
  rw [hdocument, hresolve] at hindented
  exact ⟨document, hdocument, hindented, hparsed⟩

/-- A default language that cannot be used fails in the first column, whatever blanks the first
line starts with. -/
theorem parse_indented_default :
    let p : Parser := { resolver := Resolver.builtin.withDefaultLanguage "xx" }
    let e : Failure := .dialect ⟨.unsupported, "xx", ⟨1, 1⟩⟩
    p.parseText (textOf ["Feature: a".toList]) = .error e ∧
      p.parseText (textOf [" Feature: a".toList]) = .error e := by
  decide +kernel

end Parser
end Gherkin
