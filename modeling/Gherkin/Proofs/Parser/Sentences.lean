import Gherkin.Proofs.Realisation.Reading

/-!
# The language of a parser

A parser reads a document from lines only if the kinds that it accepts them as
make a sentence of the grammar, and it reads a document from all lines that
realise a sentence in a built-in dialect.
-/

namespace Gherkin

namespace Entry

/-- The tokens of a source whose lines are those of the entries. -/
theorem tokens_eq_of_lines {number : Nat} {lines : List (List Char)} {entries : List Entry}
    (h : (Source.tokens number (.ofLines lines)).filterMap Token.line = entries.map text) :
    Source.tokens number (.ofLines lines) = tokens number entries := by
  induction lines generalizing number entries with
  | nil =>
      obtain rfl : entries = [] := List.map_eq_nil_iff.mp h.symm
      rfl
  | cons chars lines ih =>
      have hsource : Source.tokens number (.ofLines (chars :: lines)) =
          .ofLine ⟨Scanner.dropMark (number + 1) chars⟩ (number + 1) ::
            Source.tokens (number + 1) (.ofLines lines) := rfl
      rw [hsource, List.filterMap_cons] at h
      cases entries with
      | nil => cases h
      | cons e es =>
          obtain ⟨htext, hrest⟩ := List.cons.inj h
          rw [hsource, ih hrest, tokens, htext]

end Entry

namespace Matcher

/-- A new matcher with a resolver for the built-in tables reads in one of their
dialects, outside doc strings. -/
theorem isBuiltin_of_start {resolver : Resolver} (h : resolver.IsBuiltin) {m : Matcher}
    (hm : start resolver = .ok m) : m.IsBuiltin ∧ m.docString = none := by
  rw [start] at hm
  split at hm
  · next dialect kept hresolve =>
      obtain rfl := Except.ok.inj hm
      obtain ⟨hdialect, hkept⟩ := h.resolve hresolve
      exact ⟨⟨hkept, hdialect⟩, rfl⟩
  · cases hm

end Matcher

namespace Reader

/-- A reader at the start of a document stands in front of its lines. -/
theorem start_realises (limit : Option Nat) {m : Matcher} {entries : List Entry}
    (hm : m.IsBuiltin) (hdoc : m.docString = none)
    (hderives : Derives (.rule .document) (Entry.sentence entries))
    (hrealises : m.realises false entries = true) (heven : Entry.evenRows none entries = true) :
    (start limit m).Realises .start false .eof none entries where
  drafts := start_drafts limit m
  wellRead := WellRead.nil
  errors := rfl
  failure := rfl
  builtin := hm
  notStart := nofun
  realises := hrealises
  docString := congrArg Option.isSome hdoc
  previous := by simp [start, State.blankKind, State.inDocString]
  rows := fun row hrow => absurd hrow List.not_mem_nil
  even := heven
  terminal := hderives.isTerminal fun kind hkind => absurd hkind List.not_mem_nil
  accepts := ⟨.start, State.accepts_of_derives hderives, .inl rfl⟩

end Reader

namespace Parser

/-- The lines can be told apart as they are meant, by a parser at the start of a
document, and the rows of every table have the same number of cells. -/
def realises (p : Parser) (entries : List Entry) : Bool :=
  match p.reader with
  | .ok r => r.matcher.realises false entries && Entry.evenRows none entries
  | .error _ => false

theorem isBuiltin_of_reader {p : Parser} (h : p.resolver.IsBuiltin) {r : Reader}
    (hr : p.reader = .ok r) :
    ∃ m, r = .start p.limit m ∧ m.IsBuiltin ∧ m.docString = none := by
  obtain ⟨matcher, reset, hmatcher, hreset, hstart⟩ := exists_reset_of_reader hr
  obtain ⟨hbuiltin, -⟩ := Matcher.isBuiltin_of_start h hmatcher
  exact ⟨reset, hstart, Matcher.isBuiltin_of_start hbuiltin.resolver hreset⟩

/-- Lines that realise a sentence are read as a document, and each of them is
accepted as it is meant. -/
theorem exists_parse_of_realises {p : Parser} {lines : List (List Char)}
    {entries : List Entry} (hbuiltin : p.resolver.IsBuiltin)
    (hderives : Derives (.rule .document) (Entry.sentence entries))
    (hrealises : p.realises entries = true)
    (hlines : (Source.tokens 0 (.ofLines lines)).filterMap Token.line =
      entries.map Entry.text) :
    ∃ r tree, p.reader = .ok r ∧ p.parse (.ofLines lines) = .ok (Tree.document tree) ∧
      p.accepted (.ofLines lines) =
        r.matcher.readAll (Entry.acceptedKinds .eof entries ++ [TokenKind.eof])
          (Source.tokens 0 (.ofLines lines)) ∧
      (p.accepted (.ofLines lines)).map Token.kind? =
        (Entry.acceptedKinds .eof entries ++ [TokenKind.eof]).map some := by
  rw [realises] at hrealises
  split at hrealises
  · next r hr =>
      rw [Bool.and_eq_true] at hrealises
      obtain ⟨m, rfl, hm, hdoc⟩ := isBuiltin_of_reader hbuiltin hr
      have hstart := Reader.start_realises p.limit hm hdoc hderives hrealises.1
        hrealises.2
      obtain ⟨tree, hfinishes⟩ := hstart.exists_finishes 0
      have hreads := p.readsAs_ofLines lines
      rw [hr, Entry.tokens_eq_of_lines hlines] at hreads
      obtain ⟨houtcome, -, hacceptances⟩ := hreads
      rw [accepted, hacceptances, Entry.tokens_eq_of_lines hlines]
      refine ⟨_, tree, hr, houtcome.trans hfinishes.outcome, hfinishes.tokens, ?_⟩
      rw [List.map_map]
      exact hfinishes.kinds
  · cases hrealises

/-- The kinds that the lines of a document have been accepted as, without blank
lines and comments. -/
def sentence (p : Parser) (source : Source) : List TokenKind :=
  ((p.accepted source).filterMap Token.kind?).filter TokenKind.isTerminal

/-- The parser reads the sentences of the grammar: what it reads is one, each
line in its place, and every realisation of one is read as it is meant. -/
theorem reads_sentences (p : Parser) (lines : List (List Char)) :
    (∀ document, p.parse (.ofLines lines) = .ok document →
      (p.accepted (.ofLines lines)).map Token.fresh = Source.tokens 0 (.ofLines lines) ∧
        Derives (.rule .document) (p.sentence (.ofLines lines))) ∧
    (∀ entries, p.resolver.IsBuiltin → Derives (.rule .document) (Entry.sentence entries) →
      p.realises entries = true →
      (Source.tokens 0 (.ofLines lines)).filterMap Token.line = entries.map Entry.text →
      ∃ document, p.parse (.ofLines lines) = .ok document ∧
        (p.accepted (.ofLines lines)).map Token.kind? =
          (Entry.acceptedKinds .eof entries ++ [TokenKind.eof]).map some) := by
  constructor
  · intro document h
    obtain ⟨tree, -, hlines, htokens⟩ := exists_tree h
    refine ⟨htokens, ?_⟩
    rw [sentence, ← map_fst_leavesOf []]
    exact Tree.derives_iff_exists_lines.mpr ⟨tree, hlines⟩
  · intro entries hbuiltin hderives hrealises hlines
    obtain ⟨r, tree, -, hparse, -, hkinds⟩ :=
      exists_parse_of_realises hbuiltin hderives hrealises hlines
    exact ⟨Tree.document tree, hparse, hkinds⟩

/-- A document in French, with a description, a table and a doc string. -/
def french : List Entry :=
  [.line .language (.ofString "# language: fr"), .line .tagLine (.ofString "@a"),
   .line .featureLine (.ofString "Fonctionnalité: f"), .line .other (.ofString "  d"),
   .blank (.ofString ""), .comment (.ofString "# c"),
   .line .scenarioLine (.ofString "Scénario: s"), .line .stepLine (.ofString "Soit t"),
   .line .tableRow (.ofString "|x|y|"), .line .tableRow (.ofString "|1|2|"),
   .line .stepLine (.ofString "Quand u"), .line .docStringSeparator (.ofString "\"\"\""),
   .line .other (.ofString "# v"), .line .docStringSeparator (.ofString "\"\"\""),
   .blank (.ofString "")]

theorem derives_french : Derives (.rule .document) (Entry.sentence french) := by
  let table : Tree.Step Unit := ⟨(), some (.table () [()])⟩
  let docString : Tree.Step Unit := ⟨(), some (.docString () [()] ())⟩
  let tree : Tree.Feature Unit :=
    ⟨⟨some (), [()], ⟨(), [()]⟩⟩, none, [.scenario [] ⟨⟨(), []⟩, [table, docString]⟩]⟩
  exact Tree.derives_iff_exists_lines.mpr ⟨some tree, rfl⟩

theorem reads_sentences_french :
    ∃ document, parse {} (.ofLines (french.map fun e => e.text.chars)) = .ok document ∧
      (accepted {} (.ofLines (french.map fun e => e.text.chars))).map Token.kind? =
        ([.language, .tagLine, .featureLine, .other, .other, .comment, .scenarioLine,
          .stepLine, .tableRow, .tableRow, .stepLine, .docStringSeparator, .other,
          .docStringSeparator, .empty, .eof] : List TokenKind).map some ∧
      Derives (.rule .document) (sentence {} (.ofLines (french.map fun e => e.text.chars))) := by
  obtain ⟨hsound, hcomplete⟩ := reads_sentences {} (french.map fun e => e.text.chars)
  obtain ⟨document, hparse, hkinds⟩ :=
    hcomplete french Resolver.isBuiltin_builtin derives_french (by decide +kernel) rfl
  exact ⟨document, hparse, hkinds, (hsound document hparse).2⟩

end Parser
end Gherkin
