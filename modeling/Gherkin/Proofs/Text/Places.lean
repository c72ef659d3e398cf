import Gherkin.Text.Pieces
import Mathlib.Data.List.Basic

/-!
# Places of pieces

Pieces stand one behind the other, with a separator between any two of them.  Where
a piece stands depends on the widths of those in front of it.
-/

namespace Gherkin.Text

variable {α β : Type} {width : α → Nat} {start : Nat} {pieces : List (List α)}

/-! ### Widths -/

theorem totalWidth_cons (width : α → Nat) (a : α) (piece : List α) :
    totalWidth width (a :: piece) = width a + totalWidth width piece :=
  rfl

theorem totalWidth_append (width : α → Nat) (front piece : List α) :
    totalWidth width (front ++ piece) = totalWidth width front + totalWidth width piece := by
  induction front with
  | nil => exact (Nat.zero_add _).symm
  | cons a front ih =>
      rw [List.cons_append, totalWidth_cons, totalWidth_cons, ih, Nat.add_assoc]

theorem totalWidth_chars (cs : List Char) : totalWidth (fun _ => 1) cs = cs.length := by
  induction cs with
  | nil => rfl
  | cons c cs ih => rw [totalWidth_cons, ih, List.length_cons, Nat.add_comm]

/-! ### Places -/

theorem map_snd_place (width : α → Nat) (start : Nat) (pieces : List (List α)) :
    (place width start pieces).map Prod.snd = pieces := by
  induction pieces generalizing start with
  | nil => rfl
  | cons piece pieces ih => exact congrArg (piece :: ·) (ih _)

theorem le_of_mem_place {x : Nat × List α} (h : x ∈ place width start pieces) : start ≤ x.1 := by
  induction pieces generalizing start with
  | nil => cases h
  | cons piece pieces ih =>
      rcases List.mem_cons.mp h with rfl | h
      · exact Nat.le_refl _
      · have hbehind := ih h
        omega

/-- Pieces stand from the left to the right, each behind the end of those in front of it. -/
theorem pairwise_place (width : α → Nat) (start : Nat) (pieces : List (List α)) :
    (place width start pieces).Pairwise fun x y => x.1 + totalWidth width x.2 < y.1 := by
  induction pieces generalizing start with
  | nil => exact List.Pairwise.nil
  | cons piece pieces ih =>
      exact List.pairwise_cons.mpr ⟨fun y hy => le_of_mem_place hy, ih _⟩

/-- The last piece moves no other. -/
theorem dropLast_place_concat (width : α → Nat) (start : Nat) (pieces : List (List α))
    (piece : List α) :
    (place width start (pieces ++ [piece])).dropLast = place width start pieces := by
  induction pieces generalizing start with
  | nil => rfl
  | cons first pieces ih =>
      rw [List.cons_append, place, place, List.dropLast_cons_of_ne_nil, ih]
      cases pieces <;> exact List.cons_ne_nil _ _

/-- Pieces of the same widths have the same places. -/
theorem place_map {width' : β → Nat} {f : List β → List α}
    (hwidth : ∀ piece, totalWidth width (f piece) = totalWidth width' piece) (start : Nat)
    (pieces : List (List β)) :
    place width start (pieces.map f) =
      (place width' start pieces).map fun x => (x.1, f x.2) := by
  induction pieces generalizing start with
  | nil => rfl
  | cons piece pieces ih => rw [List.map_cons, place, place, List.map_cons, ih, hwidth]

/-- What stands in front of the first piece only moves the others. -/
theorem tail_place_modifyHead (width : α → Nat) (start : Nat) (front : List α)
    (pieces : List (List α)) :
    (place width start (pieces.modifyHead (front ++ ·))).tail =
      (place width (start + totalWidth width front) pieces).tail := by
  cases pieces with
  | nil => rfl
  | cons piece pieces =>
      rw [List.modifyHead_cons, place, place, List.tail_cons, List.tail_cons, totalWidth_append,
        ← Nat.add_assoc start]

end Gherkin.Text
