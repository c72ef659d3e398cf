/-!
# Pieces between separators

A list that has been split at separators falls into pieces.  When the elements have widths and
every separator is one unit wide, each piece has a position.
-/

namespace Gherkin.Text

/-- The sum of the widths of elements. -/
def totalWidth (width : α → Nat) (piece : List α) : Nat :=
  piece.foldr (fun a n => width a + n) 0

/-- Pieces with their positions, where the first one stands at `start`. -/
def place (width : α → Nat) (start : Nat) : List (List α) → List (Nat × List α)
  | [] => []
  | piece :: pieces =>
    (start, piece) :: place width (start + totalWidth width piece + 1) pieces

/-- The pieces of a text between characters that satisfy `p`, empty ones left out. -/
def words (p : Char → Bool) (start : Nat) (cs : List Char) : List (Nat × List Char) :=
  (place (fun _ => 1) start (cs.splitOnP p)).filter fun (_, piece) => !piece.isEmpty

end Gherkin.Text
