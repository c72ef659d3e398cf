import Gherkin.Proofs.Recovery.Refusals

/-!
# The order of errors

That a table is uneven is found when the table is closed, at the line of one of
its rows.  Only the innermost open rule can have rows, and they stand behind the
errors of the tables before it.  So an error of a table stands further up than
all errors that are found after it.
-/

namespace Gherkin

namespace SyntaxError

/-- An error says that the rows of a table are uneven. -/
def isUneven (e : SyntaxError) : Bool :=
  match e.fault with
  | .unevenTable .. => true
  | .unexpectedToken .. | .unexpectedEof _ => false

/-- An error says that the source ends where a line is expected. -/
def isUnexpectedEof (e : SyntaxError) : Bool :=
  match e.fault with
  | .unexpectedEof _ => true
  | .unexpectedToken .. | .unevenTable .. => false

theorem isUnexpectedEof_of_isUneven {e : SyntaxError} (h : e.isUneven = true) :
    e.isUnexpectedEof = false := by
  obtain ⟨fault, location⟩ := e
  cases fault with
  | unevenTable expected found => rfl
  | unexpectedToken expected found => cases h
  | unexpectedEof expected => cases h

/-- An error may be listed in front of another one. -/
def Precedes (e f : SyntaxError) : Prop :=
  e.isUnexpectedEof = false ∧ (e.isUneven = true → e.location.line < f.location.line)

end SyntaxError

namespace State

/-- The innermost open rule is a table. -/
def inTable : State → Bool
  | steps _ .dataTable | examplesTable => true
  | _ => false

/-- A row leads into a table. -/
theorem inTable_next {s : State} {u : Transition} (hu : u ∈ s.transitions)
    (hkind : u.kind = .tableRow) : u.next.inTable = true := by
  revert s u
  decide

/-- Without closing the table, nothing is opened inside of it. -/
theorem opens_of_inTable {s : State} (h : s.inTable = true) {u : Transition}
    (hu : u ∈ s.transitions) (hcloses : u.closes = 0) : u.opens = [] ∧ u.next.inTable = true := by
  revert s u
  decide

/-- A source may end behind a table. -/
theorem eof_mem_expected {s : State} (h : s.inTable = true) : .eof ∈ s.expected := by
  revert s
  decide

theorem isUneven_refusal (s : State) (t : Token) : (s.refusal t).isUneven = false := by
  rw [refusal]
  split
  · rfl
  · rfl

theorem isUnexpectedEof_refusal (s : State) (t : Token) :
    (s.refusal t).isUnexpectedEof = t.isEof := by
  rw [refusal]
  cases h : t.isEof with
  | true => rfl
  | false => rfl

end State

namespace OpenTable

theorem error?_eq_none {table : OpenTable} (h : table.rows = []) : table.error? = none := by
  obtain ⟨rule, rows⟩ := table
  obtain rfl : rows = [] := h
  cases rule <;> rfl

/-- A table is uneven at one of its rows. -/
theorem exists_row_of_error? {table : OpenTable} {e : SyntaxError} (h : table.error? = some e) :
    e.isUneven = true ∧ ∃ row ∈ table.rows, e.location = row.location := by
  have huneven : unevenError? table.rows = some e := by
    obtain ⟨rule, rows⟩ := table
    cases rule with
    | dataTable | examplesTable => exact h
    | _ => cases h
  cases hrows : table.rows with
  | nil =>
      rw [hrows] at huneven
      cases huneven
  | cons first rows =>
      rw [hrows] at huneven
      obtain ⟨row, hrow, rfl⟩ := Option.map_eq_some_iff.mp huneven
      exact ⟨rfl, row, List.mem_cons_of_mem _ (List.mem_of_find?_eq_some hrow), rfl⟩

theorem tail_addRows (rows : List TableRow) (tables : List OpenTable) :
    (addRows rows tables).tail = tables.tail := by
  cases tables with
  | nil => rfl
  | cons table outer => rfl

/-- The rows behind a token are those in front of it and those of the token. -/
theorem mem_rows_addRows {rows : List TableRow} {tables : List OpenTable} {table : OpenTable}
    (h : table ∈ addRows rows tables) {row : TableRow} (hrow : row ∈ table.rows) :
    row ∈ rows ∨ ∃ table ∈ tables, row ∈ table.rows := by
  cases tables with
  | nil => cases h
  | cons first outer =>
      rcases List.mem_cons.mp h with rfl | h
      · rcases List.mem_append.mp hrow with hrow | hrow
        · exact .inr ⟨first, List.mem_cons_self, hrow⟩
        · exact .inl hrow
      · exact .inr ⟨table, List.mem_cons_of_mem _ h, hrow⟩

end OpenTable

/-- A token that is read as a row is the row of its line, and any other one is no row. -/
theorem Matcher.rows_of_matchAs {m next : Matcher} {kind : TokenKind} {t read : Token}
    (h : m.matchAs kind t = .ok (some (next, read))) :
    (kind ≠ .tableRow → read.rows = []) ∧ ∀ row ∈ read.rows, row.location.line = t.number := by
  obtain ⟨content, -, -, rfl⟩ := exists_content_of_matchAs h
  simp only [Token.rows, Token.readAs]
  constructor
  · intro hkind
    exact if_neg hkind
  · intro row hrow
    split at hrow
    · obtain rfl := List.mem_singleton.mp hrow
      rfl
    · cases hrow

namespace Reader

/-- Behind the line with the given number, errors are in order, and the rows of the open
table stand behind all uneven tables. -/
structure InOrder (r : Reader) (n : Nat) : Prop where
  precedes : r.errors.Pairwise SyntaxError.Precedes
  lines : ∀ e ∈ r.errors,
    e.isUnexpectedEof = false ∧ (e.isUneven = true → e.location.line ≤ n)
  rows : ∀ table ∈ r.builder.tables, ∀ row ∈ table.rows,
    row.location.line ≤ n ∧
      ∀ e ∈ r.errors, e.isUneven = true → e.location.line < row.location.line
  outer : ∀ table ∈ r.builder.tables.tail, table.rows = []
  outside : r.state.inTable = false → ∀ table ∈ r.builder.tables, table.rows = []

variable {r accepted : Reader} {n : Nat} {t : Token} {ts : List Token}

/-- Closing rules finds one uneven table at most. -/
theorem closingErrors_of_outer (h : ∀ table ∈ r.builder.tables.tail, table.rows = []) (k : Nat) :
    r.closingErrors k = [] ∨ ∃ e, r.closingErrors k = [e] := by
  rw [closingErrors]
  cases k with
  | zero => exact .inl rfl
  | succ k =>
      cases htables : r.builder.tables with
      | nil => exact .inl rfl
      | cons table outer =>
          rw [htables] at h
          have houter : (outer.take k).filterMap OpenTable.error? = [] := by
            rw [List.filterMap_eq_nil_iff]
            intro u hu
            exact OpenTable.error?_eq_none (h u (List.mem_of_mem_take hu))
          rw [List.take_succ_cons, List.filterMap_cons, houter]
          cases table.error? with
          | none => exact .inl rfl
          | some e => exact .inr ⟨e, rfl⟩

namespace InOrder

theorem isUneven_of_mem_closingErrors (h : r.InOrder n) {k : Nat} {e : SyntaxError}
    (he : e ∈ r.closingErrors k) :
    e.isUneven = true ∧ e.location.line ≤ n ∧
      ∀ f ∈ r.errors, f.isUneven = true → f.location.line < e.location.line := by
  obtain ⟨table, htable, herror⟩ := List.mem_filterMap.mp he
  obtain ⟨huneven, row, hrow, hlocation⟩ := OpenTable.exists_row_of_error? herror
  obtain ⟨hle, hless⟩ := h.rows table (List.mem_of_mem_take htable) row hrow
  rw [hlocation]
  exact ⟨huneven, hle, hless⟩

/-- The errors of closing rules come behind the others. -/
theorem append_closingErrors (h : r.InOrder n) (k : Nat) :
    (r.errors ++ r.closingErrors k).Pairwise SyntaxError.Precedes ∧
      ∀ e ∈ r.errors ++ r.closingErrors k,
        e.isUnexpectedEof = false ∧ (e.isUneven = true → e.location.line ≤ n) := by
  constructor
  · refine List.pairwise_append.mpr ⟨h.precedes, ?_, ?_⟩
    · rcases closingErrors_of_outer h.outer k with hnone | ⟨e, hone⟩
      · rw [hnone]
        exact List.Pairwise.nil
      · rw [hone]
        exact List.pairwise_singleton _ e
    · intro e he f hf
      constructor
      · exact (h.lines e he).1
      · intro huneven
        exact (h.isUneven_of_mem_closingErrors hf).2.2 e he huneven
  · intro e he
    rcases List.mem_append.mp he with he | he
    · exact h.lines e he
    · obtain ⟨huneven, hle, -⟩ := h.isUneven_of_mem_closingErrors he
      exact ⟨SyntaxError.isUnexpectedEof_of_isUneven huneven, fun _ => hle⟩

/-- The error of a token that is refused comes behind the others. -/
theorem append_refusal (h : r.InOrder n) (hn : n < t.number) :
    (r.errors ++ [r.state.refusal t]).Pairwise SyntaxError.Precedes := by
  refine List.pairwise_append.mpr ⟨h.precedes, List.pairwise_singleton _ _, ?_⟩
  intro e he f hf
  obtain rfl := List.mem_singleton.mp hf
  obtain ⟨heof, hle⟩ := h.lines e he
  constructor
  · exact heof
  · intro huneven
    rw [State.line_refusal]
    exact Nat.lt_of_le_of_lt (hle huneven) hn

/-- What a transition leaves open and opens has no rows, unless it stays inside a table. -/
theorem rows_opened (h : r.InOrder n) {u : Transition} (hu : u ∈ r.state.transitions) :
    let opened := (u.opens.map (⟨·, []⟩)).reverse ++ r.builder.tables.drop u.closes
    (∀ table ∈ opened, table.rows = []) ∨
      opened = r.builder.tables ∧ r.closingErrors u.closes = [] ∧ u.next.inTable = true := by
  intro opened
  have hopened (hdrop : ∀ table ∈ r.builder.tables.drop u.closes, table.rows = []) :
      ∀ table ∈ opened, table.rows = [] := by
    intro table htable
    rcases List.mem_append.mp htable with htable | htable
    · obtain ⟨rule, -, rfl⟩ := List.mem_map.mp (List.mem_reverse.mp htable)
      rfl
    · exact hdrop table htable
  by_cases hcloses : u.closes = 0
  · by_cases hinside : r.state.inTable = true
    · right
      obtain ⟨hopens, hnext⟩ := State.opens_of_inTable hinside hu hcloses
      refine ⟨?_, ?_, hnext⟩
      · simp only [opened, hopens, hcloses]
        rfl
      · rw [hcloses]
        rfl
    · left
      apply hopened
      intro table htable
      apply h.outside
      · rwa [Bool.not_eq_true] at hinside
      · exact List.mem_of_mem_drop htable
  · left
    apply hopened
    intro table htable
    apply h.outer
    obtain ⟨k, hk⟩ := Nat.exists_eq_succ_of_ne_zero hcloses
    rw [hk, ← List.drop_tail] at htable
    exact List.mem_of_mem_drop htable

/-- Errors stay in order over a token that is accepted. -/
theorem accept (h : r.InOrder n) {u : Transition} (hu : u ∈ r.state.transitions)
    (hrows : u.kind ≠ .tableRow → t.rows = []) {k : Nat} (hk : n < k)
    (hline : ∀ row ∈ t.rows, row.location.line = k) (haccepts : r.Accepts u t accepted) :
    accepted.InOrder k := by
  obtain ⟨hprecedes, hlines⟩ := h.append_closingErrors u.closes
  have hopened := h.rows_opened hu
  obtain ⟨-, hstate, -, htables, herrors, -⟩ := haccepts
  rw [← herrors] at hprecedes hlines
  generalize (u.opens.map (⟨·, []⟩)).reverse ++ r.builder.tables.drop u.closes = opened
    at htables hopened
  constructor
  · exact hprecedes
  · intro e he
    obtain ⟨heof, hle⟩ := hlines e he
    exact ⟨heof, fun huneven => Nat.le_of_lt (Nat.lt_of_le_of_lt (hle huneven) hk)⟩
  · intro table htable row hrow
    rw [htables] at htable
    rcases OpenTable.mem_rows_addRows htable hrow with hrow | ⟨old, hold, hrow⟩
    · rw [hline row hrow]
      refine ⟨Nat.le_refl k, fun e he huneven => ?_⟩
      exact Nat.lt_of_le_of_lt ((hlines e he).2 huneven) hk
    · rcases hopened with hempty | ⟨rfl, hnone, -⟩
      · rw [hempty old hold] at hrow
        cases hrow
      · obtain ⟨hle, hless⟩ := h.rows old hold row hrow
        rw [herrors, hnone, List.append_nil]
        exact ⟨Nat.le_of_lt (Nat.lt_of_le_of_lt hle hk), hless⟩
  · rw [htables, OpenTable.tail_addRows]
    intro table htable
    rcases hopened with hempty | ⟨rfl, -, -⟩
    · exact hempty table (List.mem_of_mem_tail htable)
    · exact h.outer table htable
  · intro houtside
    rw [hstate] at houtside
    rcases hopened with hempty | ⟨-, -, hinside⟩
    · have hnone : t.rows = [] := by
        apply hrows
        intro hkind
        rw [State.inTable_next hu hkind] at houtside
        cases houtside
      rw [htables, hnone, OpenTable.addRows_nil]
      exact hempty
    · rw [hinside] at houtside
      cases houtside

theorem take_accepted (h : r.InOrder n) (hfine : r.Fine) (hn : n < t.number) {a : Acceptance}
    (hchoice : r.choice t ts = .ok (some a)) (hfailure : (r.take t ts).failure = none) :
    (r.take t ts).InOrder t.number := by
  obtain ⟨-, haccepts⟩ := hfine.take_accepted hchoice hfailure
  obtain ⟨hfind, hmatch⟩ := Matcher.choose_eq_some hchoice
  obtain ⟨hrows, hline⟩ := Matcher.rows_of_matchAs hmatch
  have hbehind : InOrder { r with matcher := a.matcher } n :=
    ⟨h.precedes, h.lines, h.rows, h.outer, h.outside⟩
  exact hbehind.accept (List.mem_of_find?_eq_some hfind) hrows hn hline haccepts

/-- Errors stay in order over a line. -/
theorem take (h : r.InOrder n) (hfine : r.Fine) (hn : n < t.number) (hline : t.isEof = false)
    (hfailure : (r.take t ts).failure = none) : (r.take t ts).InOrder t.number := by
  rcases hchoice : r.choice t ts with e | _ | a
  · exact absurd hchoice (choice_ne_error hfailure e)
  · obtain ⟨-, htake⟩ := take_refused hchoice hfailure
    have hle := Nat.le_of_lt hn
    have hprecedes := h.append_refusal hn
    have hrefusal : ∀ e ∈ r.errors ++ [r.state.refusal t], e ∈ r.errors ∨
        e.isUneven = false ∧ e.isUnexpectedEof = false := by
      intro e he
      rcases List.mem_append.mp he with he | he
      · exact .inl he
      · obtain rfl := List.mem_singleton.mp he
        right
        rw [State.isUneven_refusal, State.isUnexpectedEof_refusal]
        exact ⟨rfl, hline⟩
    rw [htake]
    refine ⟨hprecedes, ?_, ?_, h.outer, h.outside⟩
    · intro e he
      rcases hrefusal e he with he | ⟨heven, heof⟩
      · obtain ⟨heof, hless⟩ := h.lines e he
        exact ⟨heof, fun huneven => Nat.le_trans (hless huneven) hle⟩
      · refine ⟨heof, fun huneven => ?_⟩
        rw [heven] at huneven
        cases huneven
    · intro table htable row hrow
      obtain ⟨hrowLine, hless⟩ := h.rows table htable row hrow
      refine ⟨Nat.le_trans hrowLine hle, fun e he huneven => ?_⟩
      rcases hrefusal e he with he | ⟨heven, -⟩
      · exact hless e he huneven
      · rw [heven] at huneven
        cases huneven
  · exact h.take_accepted hfine hn hchoice hfailure

/-- Errors stay in order over all lines in front of the others. -/
theorem readFront {front rest : List Token} (h : r.InOrder n) (hfine : r.Fine)
    (hnumbers : (front ++ rest).Pairwise fun t u => t.number < u.number)
    (hn : ∀ t ∈ front ++ rest, n < t.number) (hlines : ∀ t ∈ front, t.isEof = false)
    (hfailure : (r.readFront front rest).failure = none) :
    (r.readFront front rest).Fine ∧
      ∃ k, (r.readFront front rest).InOrder k ∧ ∀ t ∈ rest, k < t.number := by
  induction front generalizing r n with
  | nil => exact ⟨hfine, n, h, hn⟩
  | cons t front ih =>
      rw [readFront_cons_of_failure hfine.failure] at hfailure ⊢
      have htaken := failure_readFront hfailure
      obtain ⟨hfirst, hothers⟩ := List.pairwise_cons.mp hnumbers
      apply ih
      · exact h.take hfine (hn t List.mem_cons_self) (hlines t List.mem_cons_self) htaken
      · exact (hfine.takes htaken).fine
      · exact hothers
      · exact hfirst
      · exact fun u hu => hlines u (List.mem_cons_of_mem _ hu)
      · exact hfailure

/-- At the end of the source errors are in order, and the only one about the end of the
source has the location of its token. -/
theorem complete (h : r.InOrder n) (hfine : r.Fine) (hn : n < t.number) (heof : t.isEof = true)
    (hfailure : (r.complete [t]).failure = none) :
    (r.complete [t]).errors.Pairwise SyntaxError.Precedes ∧
      ∀ e ∈ (r.complete [t]).errors, e.isUnexpectedEof = true → e.location = t.location := by
  have hread : r.read [t] = r.take t [] := read_cons_of_failure hfine.failure t []
  have herrors := errors_complete hfine hfailure
  have htaken := failure_of_closeRule hfailure
  rw [hread] at herrors htaken
  rcases hchoice : r.choice t [] with e | _ | a
  · exact absurd hchoice (choice_ne_error htaken e)
  · obtain ⟨-, htake⟩ := take_refused hchoice htaken
    have houtside : r.state.inTable = false := by
      rw [← Bool.not_eq_true]
      intro hinside
      have hnone := matchAs_of_refused hchoice .eof (State.eof_mem_expected hinside)
      obtain ⟨line, number, reading⟩ := t
      obtain rfl : line = none := Option.isNone_iff_eq_none.mp heof
      cases hnone
    have hnone : (r.take t []).closingErrors 1 = [] := by
      rw [htake, closingErrors, List.filterMap_eq_nil_iff]
      intro table htable
      exact OpenTable.error?_eq_none (h.outside houtside table (List.mem_of_mem_take htable))
    rw [herrors, hnone, List.append_nil, htake]
    refine ⟨h.append_refusal hn, fun e he hend => ?_⟩
    rcases List.mem_append.mp he with he | he
    · rw [(h.lines e he).1] at hend
      cases hend
    · obtain rfl := List.mem_singleton.mp he
      rw [State.refusal, if_pos heof]
  · have haccepted := h.take_accepted hfine hn hchoice htaken
    obtain ⟨hprecedes, hlines⟩ := haccepted.append_closingErrors 1
    rw [herrors]
    refine ⟨hprecedes, fun e he hend => ?_⟩
    rw [(hlines e he).1] at hend
    cases hend

end InOrder

end Reader

end Gherkin
