import Gherkin.Document
import Gherkin.Error

/-!
# Even tables

All rows of a table have as many cells as its first row.
-/

namespace Gherkin

/-- The error at the first row that has another number of cells than the first one, if any has. -/
def unevenError? : List TableRow → Option SyntaxError
  | [] => none
  | first :: rows =>
    let expected := first.cells.length
    (rows.find? fun row => row.cells.length != expected).map fun row =>
      ⟨.unevenTable expected row.cells.length, row.location⟩

/-- A data table stands where its first row stands.  Its rows must be even. -/
def DataTable.ofRows (rows : List TableRow) : Except SyntaxError DataTable :=
  match unevenError? rows with
  | some e => .error e
  | none => .ok ⟨(rows.head?.map TableRow.location).getD ⟨0, 0⟩, rows⟩

end Gherkin
