import Gherkin.Proofs.Parser.Sentences
import Gherkin.Proofs.Rendering.Parts
import Gherkin.Proofs.Rendering.Text

/-!
# Parsing rendered features

What has been written as a feature is found again in the document that its
rendering is parsed as.
-/

namespace Gherkin

namespace Source

/-- Only the first line can lose a byte order mark. -/
theorem filterMap_line_tokens {lines : List (List Char)} {number : Nat}
    (h : number = 0 → ∀ line ∈ lines.head?, line.head? ≠ some '\uFEFF') :
    (tokens number (.ofLines lines)).filterMap Token.line = lines.map Line.mk := by
  induction lines generalizing number with
  | nil => rfl
  | cons line lines ih =>
      have hsource : tokens number (.ofLines (line :: lines)) =
          .ofLine ⟨Scanner.dropMark (number + 1) line⟩ (number + 1) ::
            tokens (number + 1) (.ofLines lines) := rfl
      have hmark : Scanner.dropMark (number + 1) line = line := by
        cases line with
        | nil => rfl
        | cons c cs =>
            rw [Scanner.dropMark]
            refine if_neg ?_
            intro hboth
            simp only [Nat.add_eq_right, Bool.and_eq_true, decide_eq_true_eq] at hboth
            exact h hboth.1 (c :: cs) rfl (congrArg some hboth.2)
      rw [hsource, hmark, List.filterMap_cons]
      exact congrArg (Line.mk line :: ·) (ih nofun)

end Source

namespace Written.Feature

/-- A rendered feature starts with a line of its sentence. -/
theorem exists_entries_eq (f : Feature) : ∃ kind l es, f.entries = .line kind l :: es ∧
    l.chars.head? ≠ some '\uFEFF' := by
  have hheading : ∃ l es, f.heading.entries .featureLine 0 "Feature" = .line .featureLine l :: es ∧
      l.chars.head? ≠ some '\uFEFF' :=
    ⟨_, _, rfl, by simp [indented]⟩
  obtain ⟨l, es, hes, hl⟩ := hheading
  cases htags : f.tags with
  | nil =>
      refine ⟨.featureLine, l, es ++ (f.background.elim [] backgroundEntries ++
        f.scenarios.flatMap Scenario.entries), ?_, hl⟩
      rw [entries, htags, hes, List.append_assoc]
      rfl
  | cons tag tags =>
      refine ⟨.tagLine, _, _, by rw [entries, htags]; rfl, ?_⟩
      cases tags <;> simp [indented, Tag.text]

/-- A new parser reads English. -/
theorem exists_reader : ∃ m, Parser.reader {} = .ok (.start (some maxErrors) m) ∧ m.IsEnglish :=
  ⟨⟨{ Resolver.builtin with cache := [("en", .english)] }, .english, none⟩, rfl, rfl, rfl⟩

/-- Parsing undoes rendering. -/
theorem parse_render (f : Feature) :
    (parse f.render).map Document.unplaced = .ok ⟨some f.content⟩ := by
  obtain ⟨kind, l, es, hentries, hmark⟩ := f.exists_entries_eq
  obtain ⟨m, hreader, hm⟩ := exists_reader
  obtain ⟨_, ⟨t, ht, rfl⟩, hfollows⟩ := begins_feature hm f none .eof 0
  have hlines : (Source.tokens 0 (.ofLines f.lines)).filterMap Token.line =
      f.entries.map Entry.text := by
    have hfirst : ∀ line ∈ f.lines.head?, line.head? ≠ some '\uFEFF' := by
      intro line hline
      rw [lines, hentries, List.map_cons, List.head?_cons, Option.mem_some_iff] at hline
      rw [← hline]
      exact hmark
    rw [Source.filterMap_line_tokens fun _ => hfirst, lines, List.map_map]
    rfl
  have hrealises : Parser.realises {} f.entries = true := by
    have hstart : m.realises false f.entries = true := by
      rw [← hfollows.realises, hentries, Matcher.realises, Matcher.realises] <;>
        exact hm.docString
    simp only [Parser.realises, hreader]
    rw [Bool.and_eq_true]
    exact ⟨hstart, hfollows.even⟩
  obtain ⟨r, tree, hr, hparse, haccepted, -⟩ := Parser.exists_parse_of_realises
    Resolver.isBuiltin_builtin (derives_feature f) hrealises hlines
  obtain ⟨document, hdocument, hleaves, -⟩ := Parser.exists_tree hparse
  have hsame : document = some t := by
    obtain rfl : .start (some maxErrors) m = r := Except.ok.inj (hreader.symm.trans hr)
    refine Draft.document_eq_of_lines_eq (hleaves.trans ?_)
    rw [haccepted, Entry.tokens_eq_of_lines hlines]
    exact hfollows.leaves
  have htext : Source.ofText f.render = .ofLines f.lines := by
    rw [Source.ofText, textLines_render]
    rfl
  rw [parse, Parser.parseText, htext, hparse, hdocument, hsame, ← ht]
  rfl

example :
    render
      ⟨[⟨['a'], List.forall_mem_singleton.mpr rfl⟩], ⟨⟨['f'], by decide, by decide⟩, []⟩, none,
        [⟨[], ⟨⟨⟨['s'], by decide, by decide⟩, []⟩,
          [⟨[], "Given ", by decide, ⟨['t'], by decide, by decide⟩,
            some (.table ⟨[⟨['|'], by decide⟩], [], by decide, by decide⟩)⟩]⟩, none⟩]⟩ =
      "@a\nFeature: f\n\n  Scenario: s\n    Given t\n      | \\| |\n" := by
  decide

end Written.Feature
end Gherkin
