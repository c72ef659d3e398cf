import Gherkin.Proofs.Recovery.Order
import Gherkin.Proofs.Tree.Tables

/-!
# The rows of tables

Replaying the rules that accepted tokens close and open gives the rows of every
table.  Blank lines and comments leave a table open, and any other line closes
it.  So a table is a maximal run of rows, and its error comes when it is closed.
-/

namespace Gherkin

/-- A rule whose rows must be even. -/
def Rule.isTable : Rule → Bool
  | dataTable | examplesTable => true
  | _ => false

namespace OpenTable

/-- The rows of the tables among open rules, from the innermost rule outwards. -/
def tableRows (opened : List OpenTable) : List (List TableRow) :=
  (opened.filter fun table => table.rule.isTable).map rows

/-- The open rules behind a transition that accepts a token. -/
def behind (opened : List OpenTable) (u : Transition) (t : Token) : List OpenTable :=
  addRows t.rows ((u.opens.map (⟨·, []⟩)).reverse ++ opened.drop u.closes)

/-- The rows of the tables among open rules and among the rules that accepted tokens open, in
the order in which the tables are closed. -/
def replay (opened : List OpenTable) : List Acceptance → List (List TableRow)
  | [] => tableRows opened
  | a :: as =>
    tableRows (opened.take a.transition.closes) ++ replay (behind opened a.transition a.token) as

/-- Closing rules finds the tables among them that are uneven. -/
theorem filterMap_error? (opened : List OpenTable) :
    opened.filterMap error? = (tableRows opened).filterMap unevenError? := by
  induction opened with
  | nil => rfl
  | cons table opened ih =>
      obtain ⟨rule, rows⟩ := table
      cases rule with
      | dataTable | examplesTable =>
          change List.filterMap error? (_ :: opened) =
            List.filterMap unevenError? (rows :: tableRows opened)
          rw [List.filterMap_cons, List.filterMap_cons, ih]
          rfl
      | _ => exact ih

end OpenTable

/-! ### Runs of rows -/

namespace Token

/-- A line as a table row. -/
def tableRow (t : Token) : TableRow where
  location := ⟨t.number, t.lineIndent + 1⟩
  cells := ((t.line.map Line.cells).getD []).map fun cell =>
    ⟨⟨t.number, cell.column⟩, cell.text⟩

/-- Blank lines and comments may stand between the rows of a table. -/
def isGap (t : Token) : Bool :=
  t.kind? = some .empty || t.kind? = some .comment

/-- The maximal runs of rows among tokens that have been accepted, where blank lines and
comments between rows do not end a run. -/
def rowRuns (ts : List Token) : List (List Token) :=
  maximalRuns (fun t => t.kind? = some .tableRow) (ts.filter fun t => !t.isGap)

variable {t : Token} {held ts : List Token}

theorem rowRuns_gap (h : t.isGap = true) : rowRuns (held ++ t :: ts) = rowRuns (held ++ ts) := by
  rw [rowRuns, rowRuns, List.filter_append, List.filter_append,
    List.filter_cons_of_neg (by simp [h])]

theorem filter_rows (h : ∀ t ∈ held, t.kind? = some .tableRow) :
    (held.filter fun t => !t.isGap) = held := by
  apply List.filter_eq_self.mpr
  intro t ht
  simp [isGap, h t ht]

/-- A line that is neither a row nor between rows ends a run. -/
theorem rowRuns_close (h : ∀ t ∈ held, t.kind? = some .tableRow) (hgap : t.isGap = false)
    (hrow : t.kind? ≠ some .tableRow) :
    rowRuns (held ++ t :: ts) = unlessEmpty held ++ rowRuns ts := by
  rw [rowRuns, List.filter_append, filter_rows h, List.filter_cons_of_pos (by simp [hgap]),
    maximalRuns_append_cons (by simpa using h) (by simpa using hrow), rowRuns]

theorem rowRuns_rows (h : ∀ t ∈ held, t.kind? = some .tableRow) :
    rowRuns held = unlessEmpty held := by
  rw [rowRuns, filter_rows h, maximalRuns_eq (by simpa using h)]

/-- The rows of runs. -/
def tablesOf (runs : List (List Token)) : List (List TableRow) :=
  runs.map fun run => run.map tableRow

theorem tablesOf_append (runs more : List (List Token)) :
    tablesOf (runs ++ more) = tablesOf runs ++ tablesOf more :=
  List.map_append

end Token

theorem Matcher.rows_of_matchAs_tableRow {m next : Matcher} {t read : Token}
    (h : m.matchAs .tableRow t = .ok (some (next, read))) : read.rows = [read.tableRow] := by
  obtain ⟨l, content, hline, hcontent, -, rfl⟩ := exists_line_of_matchAs h TokenKind.noConfusion
  obtain ⟨line, number, reading⟩ := t
  obtain rfl : line = some l := hline
  rw [lineContent?] at hcontent
  split at hcontent
  · obtain rfl := Option.some.inj hcontent
    rfl
  · cases hcontent

namespace State

/-- The rules that are open in a state, innermost first. -/
def openRules (s : State) : List Rule :=
  (.document :: s.rules).reverse

theorem openRules_next {s : State} {u : Transition} (hu : u ∈ s.transitions) :
    u.next.openRules = u.opens.reverse ++ s.openRules.drop u.closes := by
  revert s u
  decide

/-- Only the innermost open rule can be a table. -/
theorem isTable_openRules (s : State) :
    s.openRules.head?.any Rule.isTable = s.inTable ∧
      ∀ rule ∈ s.openRules.tail, rule.isTable = false := by
  revert s
  decide

/-- Rows, blank lines and comments leave a table open. -/
theorem stays_of_inTable {s : State} (h : s.inTable = true) {u : Transition}
    (hu : u ∈ s.transitions) (hkind : u.kind ∈ [.tableRow, .empty, .comment]) :
    u.closes = 0 ∧ u.opens = [] := by
  revert s u
  decide

/-- Blank lines and comments neither open nor close a table. -/
theorem inTable_next_gap {s : State} {u : Transition} (hu : u ∈ s.transitions)
    (hkind : u.kind ∈ [.empty, .comment]) : u.next.inTable = s.inTable := by
  revert s u
  decide

/-- Any other line closes a table, and is outside of tables. -/
theorem inTable_next_other {s : State} {u : Transition} (hu : u ∈ s.transitions)
    (hkind : u.kind ∉ [.tableRow, .empty, .comment]) :
    u.next.inTable = false ∧ (s.inTable = true → u.closes ≠ 0) := by
  revert s u
  decide

end State

/-! ### Open tables -/

theorem OpenTable.addRows_addRows (rows more : List TableRow) (opened : List OpenTable) :
    addRows more (addRows rows opened) = addRows (rows ++ more) opened := by
  cases opened with
  | nil => rfl
  | cons table outer => simp [addRows]

theorem OpenTable.length_addRows (rows : List TableRow) (opened : List OpenTable) :
    (addRows rows opened).length = opened.length := by
  cases opened with
  | nil => rfl
  | cons table outer => rfl

/-- The rows that the open rules of a state hold: none outside of tables, and those of the
innermost rule inside of one. -/
structure HoldsRows (s : State) (held : List Token) (opened : List OpenTable) : Prop where
  opened :
    opened = OpenTable.addRows (held.map Token.tableRow) (s.openRules.map (⟨·, []⟩))
  rows : ∀ t ∈ held, t.kind? = some .tableRow
  inTable : s.inTable = !held.isEmpty

namespace HoldsRows

variable {s : State} {u : Transition} {t : Token} {held : List Token} {opened : List OpenTable}

theorem held_eq_nil (h : HoldsRows s held opened) (hs : s.inTable = false) : held = [] := by
  have hinside := h.inTable
  rw [hs] at hinside
  simpa using hinside

/-- The open table is the innermost rule. -/
theorem tableRows_take (h : HoldsRows s held opened) (n : Nat) :
    OpenTable.tableRows (opened.take n) =
      if n = 0 then [] else Token.tablesOf (unlessEmpty held) := by
  obtain ⟨rfl, -, hinside⟩ := h
  cases n with
  | zero => rfl
  | succ n =>
      obtain ⟨hfirst, houter⟩ := s.isTable_openRules
      obtain ⟨first, outer, hrules⟩ := List.exists_cons_of_ne_nil
        (show s.openRules ≠ [] by simp [State.openRules])
      rw [hrules] at hfirst houter ⊢
      have hnone : OpenTable.tableRows ((outer.map (⟨·, []⟩ : Rule → OpenTable)).take n) = [] := by
        rw [OpenTable.tableRows, List.map_eq_nil_iff, List.filter_eq_nil_iff]
        intro table htable
        obtain ⟨rule, hrule, rfl⟩ := List.mem_map.mp (List.mem_of_mem_take htable)
        simp [houter rule hrule]
      have htable : first.isTable = !held.isEmpty := hfirst.trans hinside
      rw [OpenTable.tableRows] at hnone
      rw [List.map_cons, OpenTable.addRows, List.take_succ_cons, OpenTable.tableRows,
        List.filter_cons, List.nil_append, if_neg (Nat.succ_ne_zero n), htable]
      cases held with
      | nil => exact hnone
      | cons row rows =>
          rw [List.isEmpty_cons, Bool.not_false, if_pos rfl, List.map_cons, hnone]
          rfl

theorem tableRows_eq (h : HoldsRows s held opened) :
    OpenTable.tableRows opened = Token.tablesOf (unlessEmpty held) := by
  have hne : opened.length ≠ 0 := by
    rw [h.opened, OpenTable.length_addRows, List.length_map, State.openRules, List.length_reverse]
    exact Nat.succ_ne_zero _
  have hall := h.tableRows_take opened.length
  rwa [List.take_length, if_neg hne] at hall

/-- What is open behind a transition that closes the open table, if there is one. -/
theorem behind_eq (h : HoldsRows s held opened) (hu : u ∈ s.transitions)
    (hclosed : u.closes = 0 → held = []) (t : Token) :
    OpenTable.behind opened u t =
      OpenTable.addRows t.rows (u.next.openRules.map (⟨·, []⟩)) := by
  have hdrop : opened.drop u.closes = (s.openRules.drop u.closes).map (⟨·, []⟩) := by
    rw [h.opened, List.map_drop]
    cases hcloses : u.closes with
    | zero => rw [hclosed hcloses, List.map_nil, OpenTable.addRows_nil]
    | succ n =>
        cases s.openRules with
        | nil => rfl
        | cons rule rules => rfl
  rw [OpenTable.behind, hdrop, State.openRules_next hu, List.map_append, List.map_reverse]

/-- A line that leaves a table open adds its row, if it is one. -/
theorem keep (h : HoldsRows s held opened) (hu : u ∈ s.transitions)
    (hkind : u.kind ∈ [.tableRow, .empty, .comment]) (added : List Token)
    (hrows : t.rows = added.map Token.tableRow) (hadded : ∀ t ∈ added, t.kind? = some .tableRow)
    (hinside : u.next.inTable = !(held ++ added).isEmpty) :
    OpenTable.tableRows (opened.take u.closes) = [] ∧
      HoldsRows u.next (held ++ added) (OpenTable.behind opened u t) := by
  have hall : ∀ t ∈ held ++ added, t.kind? = some .tableRow := by
    intro t ht
    rcases List.mem_append.mp ht with ht | ht
    · exact h.rows t ht
    · exact hadded t ht
  cases hs : s.inTable with
  | true =>
      obtain ⟨hcloses, hopens⟩ := State.stays_of_inTable hs hu hkind
      have hrules : u.next.openRules = s.openRules := by
        rw [State.openRules_next hu, hcloses, hopens]
        rfl
      refine ⟨by rw [hcloses]; rfl, ?_, hall, hinside⟩
      rw [OpenTable.behind, hcloses, hopens, hrules, List.drop_zero, h.opened, hrows,
        List.map_append]
      exact OpenTable.addRows_addRows _ _ _
  | false =>
      have hnone := h.held_eq_nil hs
      refine ⟨?_, ?_, hall, hinside⟩
      · rw [h.tableRows_take, hnone]
        exact ite_self _
      · rw [h.behind_eq hu (fun _ => hnone), hnone, hrows, List.nil_append]

/-- A line that is neither a row nor a blank line nor a comment closes the open table. -/
theorem close (h : HoldsRows s held opened) (hu : u ∈ s.transitions)
    (hkind : u.kind ∉ [.tableRow, .empty, .comment]) (hrows : t.rows = []) :
    OpenTable.tableRows (opened.take u.closes) = Token.tablesOf (unlessEmpty held) ∧
      HoldsRows u.next [] (OpenTable.behind opened u t) := by
  obtain ⟨hnext, hcloses⟩ := State.inTable_next_other hu hkind
  have hclosed : u.closes = 0 → held = [] := by
    intro hzero
    cases hs : s.inTable with
    | true => exact absurd hzero (hcloses hs)
    | false => exact h.held_eq_nil hs
  refine ⟨?_, ?_, fun t ht => absurd ht List.not_mem_nil, hnext⟩
  · rw [h.tableRows_take]
    split
    · next hzero =>
        rw [hclosed hzero]
        rfl
    · rfl
  · rw [h.behind_eq hu hclosed, hrows]
    rfl

/-- What is open behind a token that is accepted, and what is closed with it. -/
theorem accept (h : HoldsRows s held opened) (hu : u ∈ s.transitions) {m next : Matcher}
    {fresh : Token} (hmatch : m.matchAs u.kind fresh = .ok (some (next, t))) :
    ∃ held', HoldsRows u.next held' (OpenTable.behind opened u t) ∧
      ∀ ts, Token.tablesOf (Token.rowRuns (held ++ t :: ts)) =
        OpenTable.tableRows (opened.take u.closes) ++
          Token.tablesOf (Token.rowRuns (held' ++ ts)) := by
  have hread := Matcher.kind?_of_matchAs hmatch
  by_cases hrow : u.kind = .tableRow
  · rw [hrow] at hread hmatch
    obtain ⟨hnone, hbehind⟩ := h.keep hu (by simp [hrow]) [t]
      (Matcher.rows_of_matchAs_tableRow hmatch) (by simpa using hread)
      (by rw [State.inTable_next hu hrow]; simp)
    refine ⟨_, hbehind, fun ts => ?_⟩
    rw [hnone, List.append_assoc, List.singleton_append, List.nil_append]
  · have hrows := (Matcher.rows_of_matchAs hmatch).1 hrow
    by_cases hgap : u.kind ∈ [.empty, .comment]
    · obtain ⟨hnone, hbehind⟩ := h.keep hu (List.mem_cons_of_mem _ hgap) [] hrows
        (fun t ht => absurd ht List.not_mem_nil)
        (by rw [State.inTable_next_gap hu hgap, List.append_nil, h.inTable])
      refine ⟨_, hbehind, fun ts => ?_⟩
      have hbetween : t.isGap = true := by simpa [Token.isGap, hread] using hgap
      rw [hnone, List.append_nil, List.nil_append, Token.rowRuns_gap hbetween]
    · obtain ⟨hclosed, hbehind⟩ := h.close (t := t) hu (by simp_all) hrows
      refine ⟨_, hbehind, fun ts => ?_⟩
      have hother : t.isGap = false := by simpa [Token.isGap, hread] using hgap
      rw [hclosed, List.nil_append, ← Token.tablesOf_append]
      exact congrArg Token.tablesOf
        (Token.rowRuns_close h.rows hother (by simpa [hread] using hrow))

end HoldsRows

namespace Reader

variable {r : Reader} {held : List Token}

theorem closingErrors_eq (r : Reader) (n : Nat) :
    r.closingErrors n =
      (OpenTable.tableRows (r.builder.tables.take n)).filterMap unevenError? :=
  OpenTable.filterMap_error? _

/-- All errors of closing rules are about uneven tables. -/
theorem isUneven_of_mem_closingErrors {n : Nat} {e : SyntaxError} (h : e ∈ r.closingErrors n) :
    e.isUneven = true := by
  obtain ⟨table, -, htable⟩ := List.mem_filterMap.mp h
  exact (OpenTable.exists_row_of_error? htable).1

theorem filter_isUneven_closingErrors (r : Reader) (n : Nat) :
    (r.closingErrors n).filter SyntaxError.isUneven = r.closingErrors n :=
  List.filter_eq_self.mpr fun _ => isUneven_of_mem_closingErrors

theorem acceptances_of_refused {t : Token} {ts : List Token} (hfailure : r.failure = none)
    (hchoice : r.choice t ts = .ok none) :
    r.acceptances (t :: ts) = (r.take t ts).acceptances ts := by
  rw [acceptances, if_neg (by simp [hfailure]), hchoice]
  rfl

theorem acceptances_of_accepted {t : Token} {ts : List Token} {a : Acceptance}
    (hfailure : r.failure = none) (hchoice : r.choice t ts = .ok (some a)) :
    r.acceptances (t :: ts) = a :: (r.take t ts).acceptances ts := by
  rw [acceptances, if_neg (by simp [hfailure]), hchoice]
  rfl

/-- What a reader makes of the rows of tokens behind those of an open table: `left` are the rows
of the table that is open at the end. -/
structure ReadsRows (r : Reader) (held ts left : List Token) : Prop where
  holds : HoldsRows (r.read ts).state left (r.read ts).builder.tables
  replay : OpenTable.replay r.builder.tables (r.acceptances ts) =
    Token.tablesOf (Token.rowRuns (held ++ (r.acceptances ts).map Acceptance.token))
  errors :
    (r.read ts).errors.filter SyntaxError.isUneven ++
        (Token.tablesOf (unlessEmpty left)).filterMap unevenError? =
      r.errors.filter SyntaxError.isUneven ++
        (OpenTable.replay r.builder.tables (r.acceptances ts)).filterMap unevenError?

/-- A token that is refused does not end a table. -/
theorem ReadsRows.refused {t : Token} {ts left : List Token} (hfailure : r.failure = none)
    (hchoice : r.choice t ts = .ok none) (htaken : (r.take t ts).failure = none)
    (h : (r.take t ts).ReadsRows held ts left) : r.ReadsRows held (t :: ts) left := by
  obtain ⟨hopen, hreplay, hall⟩ := h
  have hread := read_cons_of_failure hfailure t ts
  have haccepted := acceptances_of_refused hfailure hchoice
  have htake := (take_refused hchoice htaken).2
  have hbuilder : (r.take t ts).builder = r.builder := by rw [htake]
  have herrors : (r.take t ts).errors.filter SyntaxError.isUneven =
      r.errors.filter SyntaxError.isUneven := by
    rw [htake, List.filter_append,
      List.filter_cons_of_neg (by rw [State.isUneven_refusal]; exact Bool.false_ne_true),
      List.filter_nil, List.append_nil]
  rw [hbuilder] at hreplay hall
  rw [herrors] at hall
  refine ⟨?_, ?_, ?_⟩
  · rw [hread]
    exact hopen
  · rw [haccepted]
    exact hreplay
  · rw [hread, haccepted]
    exact hall

/-- A token that is accepted closes the tables of the rules that it closes, with their errors. -/
theorem ReadsRows.accepted {t : Token} {ts behind left : List Token} {a : Acceptance}
    (hfailure : r.failure = none) (hchoice : r.choice t ts = .ok (some a))
    (htables : (r.take t ts).builder.tables =
      OpenTable.behind r.builder.tables a.transition a.token)
    (herrors : (r.take t ts).errors = r.errors ++ r.closingErrors a.transition.closes)
    (hruns : ∀ ts, Token.tablesOf (Token.rowRuns (held ++ a.token :: ts)) =
      OpenTable.tableRows (r.builder.tables.take a.transition.closes) ++
        Token.tablesOf (Token.rowRuns (behind ++ ts)))
    (h : (r.take t ts).ReadsRows behind ts left) : r.ReadsRows held (t :: ts) left := by
  obtain ⟨hopen, hreplay, hall⟩ := h
  have hread := read_cons_of_failure hfailure t ts
  have haccepted := acceptances_of_accepted hfailure hchoice
  rw [htables] at hreplay hall
  refine ⟨?_, ?_, ?_⟩
  · rw [hread]
    exact hopen
  · rw [haccepted, List.map_cons, hruns, OpenTable.replay, hreplay]
  · rw [hread, hall, haccepted, OpenTable.replay, herrors, List.filter_append,
      filter_isUneven_closingErrors, closingErrors_eq, List.filterMap_append, List.append_assoc]

theorem readsRows {ts : List Token} (h : HoldsRows r.state held r.builder.tables) (hfine : r.Fine)
    (hread : (r.read ts).failure = none) : ∃ left, r.ReadsRows held ts left := by
  induction ts generalizing r held with
  | nil =>
      refine ⟨held, h, ?_, ?_⟩
      · rw [acceptances, List.map_nil, OpenTable.replay, List.append_nil,
          Token.rowRuns_rows h.rows, h.tableRows_eq]
      · rw [acceptances, OpenTable.replay, h.tableRows_eq]
        rfl
  | cons t ts ih =>
      have hfailure := hfine.failure
      rw [read_cons_of_failure hfailure] at hread
      have htaken := failure_read hread
      have htakes := hfine.takes htaken
      rcases hchoice : r.choice t ts with e | _ | a
      · exact absurd hchoice (choice_ne_error htaken e)
      · have hholds : HoldsRows (r.take t ts).state held (r.take t ts).builder.tables := by
          rw [(take_refused hchoice htaken).2]
          exact h
        obtain ⟨left, hleft⟩ := ih hholds htakes.fine hread
        exact ⟨left, hleft.refused hfailure hchoice htaken⟩
      · obtain ⟨-, haccepts⟩ := hfine.take_accepted hchoice htaken
        obtain ⟨hfind, hmatch⟩ := Matcher.choose_eq_some hchoice
        obtain ⟨behind, hbehind, hruns⟩ := h.accept (List.mem_of_find?_eq_some hfind) hmatch
        have htables : (r.take t ts).builder.tables =
            OpenTable.behind r.builder.tables a.transition a.token := haccepts.tables
        have hholds : HoldsRows (r.take t ts).state behind (r.take t ts).builder.tables := by
          rw [haccepts.state, htables]
          exact hbehind
        obtain ⟨left, hleft⟩ := ih hholds htakes.fine hread
        exact ⟨left, hleft.accepted hfailure hchoice htables haccepts.errors hruns⟩

/-- The errors of uneven tables are those of the tables that are read, in their order. -/
theorem filter_isUneven_complete {ts : List Token} (h : HoldsRows r.state held r.builder.tables)
    (hfine : r.Fine) (hread : (r.complete ts).failure = none) :
    OpenTable.replay r.builder.tables (r.acceptances ts) =
        Token.tablesOf (Token.rowRuns (held ++ (r.acceptances ts).map Acceptance.token)) ∧
      (r.complete ts).errors.filter SyntaxError.isUneven =
        r.errors.filter SyntaxError.isUneven ++
          (OpenTable.replay r.builder.tables (r.acceptances ts)).filterMap unevenError? := by
  obtain ⟨left, hopen, hreplay, hall⟩ := readsRows h hfine (failure_of_closeRule hread)
  refine ⟨hreplay, ?_⟩
  rw [errors_complete hfine hread, List.filter_append, filter_isUneven_closingErrors,
    closingErrors_eq, hopen.tableRows_take, if_neg Nat.one_ne_zero]
  exact hall

end Reader

end Gherkin
