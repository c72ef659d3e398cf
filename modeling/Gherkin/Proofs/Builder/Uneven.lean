import Gherkin.Document.Table
import Mathlib.Data.List.Basic

/-!
# Uneven rows

A table is uneven when some row has another number of cells than the first one.
The error of the table reports the first such row.
-/

namespace Gherkin

/-- All rows have the same number of cells. -/
def TableRow.Even (rows : List TableRow) : Prop :=
  ∀ row ∈ rows, ∀ other ∈ rows, row.cells.length = other.cells.length

/-- Some row of a table has another number of cells than the first one. -/
def isRagged : List TableRow → Bool
  | [] => false
  | first :: rows => rows.any fun row => row.cells.length != first.cells.length

/-- The error says which row of a table is the first one with another number of cells than the
first row, and what the two numbers are. -/
def SyntaxError.Reports (e : SyntaxError) (rows : List TableRow) : Prop :=
  ∃ first even row others,
    rows = first :: (even ++ row :: others) ∧
      (∀ row ∈ even, row.cells.length = first.cells.length) ∧
      row.cells.length ≠ first.cells.length ∧
      e = ⟨.unevenTable first.cells.length row.cells.length, row.location⟩

theorem isSome_unevenError? (rows : List TableRow) :
    (unevenError? rows).isSome = isRagged rows := by
  cases rows with
  | nil => rfl
  | cons first rows =>
      rw [unevenError?, Option.isSome_map, isRagged, Bool.eq_iff_iff, List.find?_isSome,
        List.any_eq_true]

theorem unevenError?_eq_some_iff {rows : List TableRow} {e : SyntaxError} :
    unevenError? rows = some e ↔ e.Reports rows := by
  constructor
  · intro h
    cases rows with
    | nil => cases h
    | cons first rows =>
        obtain ⟨row, hrow, rfl⟩ := Option.map_eq_some_iff.mp h
        obtain ⟨hdiffers, even, others, rfl, heven⟩ := List.find?_eq_some_iff_append.mp hrow
        refine ⟨first, even, row, others, rfl, ?_, by simpa using hdiffers, rfl⟩
        intro other hother
        simpa using heven other hother
  · rintro ⟨first, even, row, others, rfl, heven, hdiffers, rfl⟩
    refine Option.map_eq_some_iff.mpr ⟨row, List.find?_eq_some_iff_append.mpr ?_, rfl⟩
    refine ⟨by simpa using hdiffers, even, others, rfl, ?_⟩
    intro other hother
    simpa using heven other hother

/-- The error of an uneven table moves with the rows of the table. -/
theorem unevenError?_map {f : TableRow → TableRow} {place : Location → Location}
    (hcells : ∀ row, (f row).cells.length = row.cells.length)
    (hplace : ∀ row, (f row).location = place row.location) (rows : List TableRow) :
    unevenError? (rows.map f) =
      (unevenError? rows).map fun e => { e with location := place e.location } := by
  cases rows with
  | nil => rfl
  | cons first rows =>
      simp only [List.map_cons, unevenError?, List.find?_map, Option.map_map, hcells, hplace,
        Function.comp_def]

/-- The errors of tables report the uneven ones among them, in order. -/
theorem forall₂_reports (tables : List (List TableRow)) :
    List.Forall₂ SyntaxError.Reports (tables.filterMap unevenError?)
      (tables.filter isRagged) := by
  induction tables with
  | nil => exact List.Forall₂.nil
  | cons rows tables ih =>
      have hragged := isSome_unevenError? rows
      rw [List.filterMap_cons, List.filter_cons, ← hragged]
      cases herror : unevenError? rows with
      | none => exact ih
      | some e => exact List.Forall₂.cons (unevenError?_eq_some_iff.mp herror) ih

theorem even_of_isRagged {rows : List TableRow} (h : isRagged rows = false) :
    TableRow.Even rows := by
  cases rows with
  | nil => exact fun row hrow => absurd hrow List.not_mem_nil
  | cons first rows =>
      have hfirst : ∀ row ∈ first :: rows, row.cells.length = first.cells.length := by
        rw [isRagged, List.any_eq_false] at h
        intro row hrow
        rcases List.mem_cons.mp hrow with rfl | hrow
        · rfl
        · simpa using h row hrow
      intro row hrow other hother
      rw [hfirst row hrow, hfirst other hother]

end Gherkin
