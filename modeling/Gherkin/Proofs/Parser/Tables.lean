import Gherkin.Proofs.Builder.Uneven
import Gherkin.Proofs.Parser.Errors
import Gherkin.Proofs.Recovery.Rows

/-!
# Uneven tables

The tables that a parser reads are the runs of rows that it accepts, whatever
blank lines, comments and skipped lines stand between the rows.  Each uneven one
is reported at its first row that has another number of cells than the first
row, and a document has even tables only.
-/

namespace Gherkin

/-! ### The lines of a tree -/

/-- Blank lines, comments and the end of the source add no lines to a tree. -/
theorem Token.isTerminal_eq_false_iff {t : Token} {kind : TokenKind} (h : t.kind? = some kind) :
    kind.isTerminal = false ↔ t.isGap = true ∨ kind = .eof := by
  rw [isGap, h]
  cases kind <;> decide

/-- A line that is not a row ends a table, and the end of the source adds no line. -/
theorem tables_lineOf_append {kind : TokenKind} (hkind : kind ≠ .tableRow) (leaf : Leaf)
    {leaves : List Leaf} {l : List (TokenKind × Leaf)} (hl : kind.isTerminal = false → l = []) :
    Tree.tables (Tree.linesOf .tableRow leaves ++ (Tree.lineOf kind leaf ++ l)) =
      unlessEmpty (leaves.map Leaf.row) ++ Tree.tables l := by
  rw [Tree.lineOf]
  cases hterminal : kind.isTerminal with
  | true =>
      rw [if_pos rfl, List.singleton_append,
        Tree.tables_rows leaves (Tree.Starts.cons (P := (· ≠ .tableRow)) hkind leaf l),
        Tree.tables_cons hkind]
  | false =>
      rw [hl hterminal]
      exact Tree.tables_rows leaves fun x hx => by cases hx

/-- The row of a line is that of its token. -/
theorem row_ofToken {m next : Matcher} {t read : Token} {reading : Reading}
    (hmatch : m.matchAs .tableRow t = .ok (some (next, read)))
    (hreading : read.reading = some reading) (hrow : reading.kind = .tableRow)
    (comments : List Comment) : (Leaf.ofToken comments read reading).row = read.tableRow := by
  have hrows := Matcher.rows_of_matchAs_tableRow hmatch
  rw [Token.rows, hreading] at hrows
  exact List.singleton_injective ((if_pos hrow).symm.trans hrows)

/-- Of the kinds that stand for no line of a tree only the end of the source ends a table, and
there is nothing behind it. -/
theorem eq_nil_of_not_terminal {t : Token} {ts : List Token} {kind : TokenKind}
    (hkind : t.kind? = some kind) (hgap : t.isGap = false) (hterminal : kind.isTerminal = false)
    (heof : ∀ u ∈ ts, t.kind? ≠ some .eof) : ts = [] := by
  have hlast : kind = .eof :=
    ((Token.isTerminal_eq_false_iff hkind).mp hterminal).resolve_left (by simp [hgap])
  apply List.eq_nil_iff_forall_not_mem.mpr
  intro u hu
  rw [hlast] at hkind
  exact heof u hu hkind

/-- The tables of the lines that accepted tokens add to a tree are the runs of rows, also
behind the rows of an open table. -/
theorem tables_leavesOf (held : List Token) (leaves : List Leaf) {ts : List Token}
    (hheld : ∀ t ∈ held, t.kind? = some .tableRow)
    (hleaves : leaves.map Leaf.row = held.map Token.tableRow)
    (hread : ∀ t ∈ ts, t.IsRead) (heof : ts.Pairwise fun t _ => t.kind? ≠ some .eof)
    (pending : List Comment) :
    Tree.tables (Tree.linesOf .tableRow leaves ++ leavesOf pending ts) =
      Token.tablesOf (Token.rowRuns (held ++ ts)) := by
  induction ts generalizing held leaves pending with
  | nil =>
      rw [leavesOf, Tree.tables_rows leaves (fun x hx => by cases hx), hleaves, List.append_nil,
        Token.rowRuns_rows hheld, ← map_unlessEmpty]
      exact List.append_nil _
  | cons t ts ih =>
      obtain ⟨hfirst, hothers⟩ := List.pairwise_cons.mp heof
      have hrest : ∀ t ∈ ts, t.IsRead := fun t ht => hread t (List.mem_cons_of_mem _ ht)
      obtain ⟨m, kind, t', next, hmatch⟩ := hread t List.mem_cons_self
      obtain ⟨reading, hreading, rfl⟩ := Matcher.exists_reading_of_matchAs hmatch
      have hkind : t.kind? = some reading.kind := Matcher.kind?_of_matchAs hmatch
      rw [leavesOf_cons hreading]
      by_cases hrow : reading.kind = .tableRow
      · have hheld' : ∀ u ∈ held ++ [t], u.kind? = some .tableRow := by
          intro u hu
          rcases List.mem_append.mp hu with hu | hu
          · exact hheld u hu
          · rw [List.mem_singleton.mp hu, hkind, hrow]
        have hleaves' : (leaves ++ [Leaf.ofToken pending t reading]).map Leaf.row =
            (held ++ [t]).map Token.tableRow := by
          rw [List.map_append, List.map_append, hleaves, List.map_singleton, List.map_singleton,
            row_ofToken (hrow ▸ hmatch) hreading hrow]
        have hbehind := ih _ _ hheld' hleaves' hrest hothers (pendingAfter pending t reading)
        rw [Tree.linesOf_append, List.append_assoc, List.append_assoc] at hbehind
        rw [hrow]
        exact hbehind
      · by_cases hgap : t.isGap = true
        · have hnone : Tree.lineOf reading.kind (Leaf.ofToken pending t reading) = [] := by
            rw [Tree.lineOf, (Token.isTerminal_eq_false_iff hkind).mpr (.inl hgap)]
            rfl
          rw [hnone, List.nil_append, Token.rowRuns_gap hgap]
          exact ih _ _ hheld hleaves hrest hothers _
        · have hgap : t.isGap = false := by simpa using hgap
          have hend : reading.kind.isTerminal = false →
              leavesOf (pendingAfter pending t reading) ts = [] := by
            intro hterminal
            rw [eq_nil_of_not_terminal hkind hgap hterminal hfirst, leavesOf]
          have hbehind := ih [] [] (fun t ht => absurd ht List.not_mem_nil)
            rfl hrest hothers (pendingAfter pending t reading)
          rw [tables_lineOf_append hrow _ hend, hleaves,
            Token.rowRuns_close hheld hgap (by simpa [hkind] using hrow), Token.tablesOf_append,
            ← map_unlessEmpty]
          exact congrArg _ hbehind

/-- Behind the end of a source there are no tokens. -/
theorem Source.pairwise_isEof_tokens (line : Nat) (lines : List (List Char)) :
    (tokens line (ofLines lines)).Pairwise fun t _ => t.isEof = false := by
  obtain ⟨front, n, htokens⟩ := exists_tokens_eq line lines
  have hfront := isEof_of_tokens_eq (List.cons_ne_nil _ _) htokens
  rw [htokens]
  refine List.pairwise_append.mpr ⟨?_, List.pairwise_singleton _ _, fun t ht _ _ => hfront t ht⟩
  exact List.pairwise_of_forall_mem_list fun t ht _ _ => hfront t ht

namespace Parser

/-- The tables that a parser reads: the rows of every table that accepted tokens open, in the
order of the source. -/
def tables (p : Parser) (source : Source) : List (List TableRow) :=
  OpenTable.replay [⟨.document, []⟩] (p.acceptances source)

variable {p : Parser} {lines : List (List Char)} {start : Run}

/-- The tables that are read are the runs of accepted rows, and the errors about uneven tables
are theirs. -/
theorem tables_eq (hstart : p.run (.ofLines lines) = .ok start)
    (hfine : start.complete.failure = none) :
    p.tables (.ofLines lines) = Token.tablesOf (Token.rowRuns (p.accepted (.ofLines lines))) ∧
      start.complete.errors.filter SyntaxError.isUneven =
        (p.tables (.ofLines lines)).filterMap unevenError? := by
  obtain ⟨hread, herrors⟩ := complete_of_run hstart hfine
  obtain ⟨m, hm⟩ := exists_start_of_reader (run_starts hstart).1
  have hholds : HoldsRows (Reader.start p.limit m).state []
      (Reader.start p.limit m).builder.tables :=
    ⟨rfl, fun t ht => absurd ht List.not_mem_nil, rfl⟩
  rw [hm] at hread herrors
  obtain ⟨hreplay, huneven⟩ :=
    Reader.filter_isUneven_complete hholds (Reader.start_fine p.limit m) hread
  rw [tables, accepted, herrors, acceptances_of_run hstart, hm]
  exact ⟨hreplay, huneven⟩

/-- The tables of a document are those that are read. -/
theorem tables_of_parse {document : Document} (h : p.parse (.ofLines lines) = .ok document) :
    document.tables = Token.tablesOf (Token.rowRuns (p.accepted (.ofLines lines))) := by
  obtain ⟨t, rfl, hlines, htokens⟩ := exists_tree h
  rw [Tree.tables_document, hlines]
  have hread : ∀ t ∈ p.accepted (.ofLines lines), t.IsRead :=
    fun t => exists_matchAs_of_mem_accepted
  refine tables_leavesOf [] [] (fun t ht => absurd ht List.not_mem_nil) rfl
    hread ?_ []
  have hends := Source.pairwise_isEof_tokens 0 lines
  rw [← htokens, List.pairwise_map] at hends
  refine hends.imp_of_mem fun {t u} ht hu heof hkind => ?_
  obtain ⟨m, kind, t', next, hmatch⟩ := hread t ht
  have hsame := Option.some.inj ((Matcher.kind?_of_matchAs hmatch).symm.trans hkind)
  rw [Token.fresh_isEof, (Matcher.isEof_iff_of_matchAs hmatch).mpr hsame] at heof
  cases heof

/-- Uneven tables are found exactly, each at its first row that differs from the first row, and
the tables of a document are even. -/
theorem reports_uneven_tables {source : Source} (hstart : p.run source = .ok start)
    (hfine : start.complete.failure = none) :
    List.Forall₂ SyntaxError.Reports (start.complete.errors.filter SyntaxError.isUneven)
        ((p.tables source).filter isRagged) ∧
      p.tables source = (Token.rowRuns (p.accepted source)).map (·.map Token.tableRow) ∧
      ∀ document, p.parse source = .ok document →
        document.tables = p.tables source ∧ ∀ rows ∈ document.tables, TableRow.Even rows := by
  obtain ⟨lines, rfl⟩ := exists_lines_of_complete hstart hfine
  obtain ⟨htables, herrors⟩ := tables_eq hstart hfine
  rw [herrors]
  refine ⟨forall₂_reports _, htables, fun document hparse => ?_⟩
  have hsame : document.tables = p.tables (.ofLines lines) :=
    (tables_of_parse hparse).trans htables.symm
  have hnone : start.complete.errors = [] := by
    rw [parse, report_outcome, hstart] at hparse
    exact (Reader.of_outcome_eq_ok (r := start.complete.reader) hparse).1
  rw [hnone] at herrors
  refine ⟨hsame, fun rows hrows => even_of_isRagged ?_⟩
  rw [hsame] at hrows
  rw [← isSome_unevenError?, List.filterMap_eq_nil_iff.mp herrors.symm rows hrows]
  rfl

/-- A table with a blank line, a comment and a stray line between its rows, and one below
examples. -/
theorem reports_uneven_tables_outline :
    let lines := ["Feature: f", "Scenario Outline: o", "Given <a>", "|1|2|", "", "# c", "  x ",
      " |3|", "Examples:", "|a|", "|b|c|"].map String.toList
    ∃ start, Parser.run {} (.ofLines lines) = .ok start ∧
      List.Forall₂ SyntaxError.Reports (start.complete.errors.filter SyntaxError.isUneven)
        ((tables {} (.ofLines lines)).filter isRagged) ∧
      ((tables {} (.ofLines lines)).filter isRagged).map (List.map TableRow.location) =
        [[⟨4, 1⟩, ⟨8, 2⟩], [⟨10, 1⟩, ⟨11, 1⟩]] := by
  intro lines
  have hrun : (Parser.run {} (.ofLines lines)).toOption.any (fun start =>
      start.complete.failure.isNone) = true := by
    decide +kernel
  have htables : ((tables {} (.ofLines lines)).filter isRagged).map (List.map TableRow.location) =
      [[⟨4, 1⟩, ⟨8, 2⟩], [⟨10, 1⟩, ⟨11, 1⟩]] := by
    decide +kernel
  obtain ⟨start, hstart, hfailure⟩ := exists_ok_of_any hrun
  obtain ⟨hreports, -, -⟩ :=
    reports_uneven_tables hstart (Option.isNone_iff_eq_none.mp hfailure)
  exact ⟨start, hstart, hreports, htables⟩

end Parser
end Gherkin
