import Gherkin.Proofs.Builder.Fillers
import Gherkin.Proofs.Recovery.Renumbering

/-!
# The tables of open rules

Closing a rule is an error only when the rule is a table with uneven rows.  So
the rows that each open rule has collected decide which errors will come of the
rules, whatever else they hold.
-/

namespace Gherkin

/-- An open rule and the table rows among its children. -/
structure OpenTable where
  rule : Rule
  rows : List TableRow

namespace OpenTable

/-- The error of closing the rule. -/
def error? (table : OpenTable) : Option SyntaxError :=
  match table.rule with
  | .dataTable | .examplesTable => unevenError? table.rows
  | _ => none

/-- The same rule with its rows in lines with other numbers. -/
def renumber (f : Nat → Nat) (table : OpenTable) : OpenTable :=
  { table with rows := table.rows.map (TableRow.renumber f) }

theorem error?_renumber (f : Nat → Nat) (table : OpenTable) :
    (table.renumber f).error? = table.error?.map (SyntaxError.renumber f) := by
  obtain ⟨rule, rows⟩ := table
  cases rule with
  | dataTable | examplesTable => exact unevenError?_map_renumber f rows
  | _ => rfl

theorem isUnexpectedToken_of_error? {table : OpenTable} {e : SyntaxError}
    (h : table.error? = some e) : e.isUnexpectedToken = false := by
  obtain ⟨rule, rows⟩ := table
  cases rule with
  | dataTable | examplesTable => exact isUnexpectedToken_of_unevenError? h
  | _ => cases h

/-- A row goes to the innermost open rule. -/
def addRows (rows : List TableRow) : List OpenTable → List OpenTable
  | [] => []
  | table :: outer => { table with rows := table.rows ++ rows } :: outer

theorem addRows_nil (tables : List OpenTable) : addRows [] tables = tables := by
  cases tables with
  | nil => rfl
  | cons table outer => simp [addRows]

theorem addRows_renumber (f : Nat → Nat) (rows : List TableRow) (tables : List OpenTable) :
    addRows (rows.map (TableRow.renumber f)) (tables.map (renumber f)) =
      (addRows rows tables).map (renumber f) := by
  cases tables with
  | nil => rfl
  | cons table outer => simp [addRows, renumber]

end OpenTable

/-- The table row that a token is, if it has been read as one. -/
def Token.rows (t : Token) : List TableRow :=
  match t.reading with
  | none => []
  | some reading =>
    if reading.kind = .tableRow then [Leaf.row ⟨t.number, reading, []⟩] else []

theorem Token.rows_renumber (f : Nat → Nat) (t : Token) :
    (t.renumber f).rows = t.rows.map (TableRow.renumber f) := by
  rw [rows, rows, reading_renumber, number_renumber]
  cases t.reading with
  | none => rfl
  | some reading =>
      simp only
      split
      · simp [Leaf.row, Leaf.location, TableRow.renumber, TableCell.renumber, Location.renumber]
      · rfl

namespace Fold

theorem rows_append_token (before : List Node) (leaf : Leaf) :
    rows (before ++ [.token leaf]) =
      rows before ++ if leaf.reading.kind = .tableRow then [leaf.row] else [] := by
  rw [rows, rows, leaves, leaves, List.filterMap_append, List.map_append]
  by_cases hrow : leaf.reading.kind = .tableRow
  · simp [Node.leaf?, hrow]
  · simp [Node.leaf?, hrow]

/-- What a rule is folded into is no row. -/
theorem rows_append_node {rule : Rule} {children : List Node} {node : Node}
    (h : node? rule children = .ok (some node)) (before : List Node) :
    rows (before ++ [node]) = rows before := by
  cases node with
  | token leaf => exact absurd h Builder.node?_ne_token
  | _ => simp [rows, leaves, Node.leaf?]

/-- The rows of a rule decide whether closing it is an error. -/
theorem error?_node? (rule : Rule) (children : List Node) :
    OpenTable.error? ⟨rule, rows children⟩ =
      match node? rule children with
      | .ok _ => none
      | .error e => some e := by
  cases rule with
  | dataTable =>
      simp only [OpenTable.error?, node?, DataTable.ofRows]
      cases unevenError? (rows children) <;> rfl
  | examplesTable =>
      simp only [OpenTable.error?, node?]
      cases unevenError? (rows children) <;> rfl
  | _ => rfl

end Fold

namespace Builder

/-- The open rules with their rows, innermost first. -/
def tables (b : Builder) : List OpenTable :=
  b.scopes.map fun scope => ⟨scope.rule, Fold.rows scope.children⟩

theorem tables_foldl_start (rules : List Rule) (b : Builder) :
    (rules.foldl start b).tables = (rules.map (⟨·, []⟩)).reverse ++ b.tables := by
  induction rules generalizing b with
  | nil => rfl
  | cons rule rules ih =>
      rw [List.foldl_cons, ih]
      simp [tables, start, Fold.rows, Fold.leaves]

theorem tables_add_token (b : Builder) (leaf : Leaf) :
    (b.add (.token leaf)).tables =
      OpenTable.addRows (if leaf.reading.kind = .tableRow then [leaf.row] else []) b.tables := by
  obtain ⟨root, _ | ⟨scope, outer⟩, pending⟩ := b
  · rfl
  · simp [add, tables, OpenTable.addRows, Fold.rows_append_token]

theorem tables_build (b : Builder) (t : Token) :
    (b.build t).tables = OpenTable.addRows t.rows b.tables := by
  have hnone := (OpenTable.addRows_nil b.tables).symm
  rw [build, Token.rows]
  cases t.reading with
  | none => exact hnone
  | some reading =>
      simp only
      split
      · next hcomment =>
          rw [hcomment]
          exact hnone
      · split
        · exact tables_add_token { b with pending := [] } _
        · exact tables_add_token b _

/-- Closing a rule drops its rows, and the rows decide whether that is an error. -/
theorem tables_close (b : Builder) :
    b.close.1.tables = b.tables.tail ∧ b.close.2 = b.tables.head?.bind OpenTable.error? := by
  obtain ⟨root, _ | ⟨⟨rule, children⟩, outer⟩, pending⟩ := b
  · exact ⟨rfl, rfl⟩
  · have hadd {node : Node} (h : Fold.node? rule children = .ok (some node)) :
        (add ⟨root, outer, pending⟩ node).tables = tables ⟨root, outer, pending⟩ := by
      cases outer with
      | nil => rfl
      | cons scope outer => simp [add, tables, Fold.rows_append_node h]
    have herror := Fold.error?_node? rule children
    simp only [close]
    cases hnode : Fold.node? rule children with
    | error e =>
        rw [hnode] at herror
        exact ⟨rfl, herror.symm⟩
    | ok node =>
        rw [hnode] at herror
        cases node with
        | none => exact ⟨rfl, herror.symm⟩
        | some node => exact ⟨hadd hnode, herror.symm⟩

end Builder
end Gherkin
