import Gherkin.Proofs.Parser.Recovery
import Gherkin.Proofs.Retelling.Readers

/-!
# Sources in other places

The tokens of lines under other numbers and behind further blanks are the tokens
of the lines in their new places, as long as no line starts with a byte order
mark, which the first line of a source would lose.
-/

namespace Gherkin

variable {lines : List (List Char)}

namespace Source

/-- The tokens of lines that stand behind the first `line` lines of a source, without its end. -/
def lineTokens (line : Nat) : List (List Char) → List Token
  | [] => []
  | chars :: lines => .ofLine ⟨chars⟩ (line + 1) :: lineTokens (line + 1) lines

theorem length_lineTokens (line : Nat) (lines : List (List Char)) :
    (lineTokens line lines).length = lines.length := by
  induction lines generalizing line with
  | nil => rfl
  | cons chars lines ih => rw [lineTokens, List.length_cons, ih, List.length_cons]

theorem isEof_of_mem_lineTokens {t : Token} {line : Nat} (h : t ∈ lineTokens line lines) :
    t.isEof = false := by
  induction lines generalizing line with
  | nil => cases h
  | cons chars lines ih =>
      rcases List.mem_cons.mp h with rfl | h
      · rfl
      · exact ih h

/-- A line that does not start with a byte order mark is scanned as it is. -/
theorem tokens_cons {chars : List Char} (h : chars.head? ≠ some '\uFEFF') (line : Nat)
    (lines : List (List Char)) :
    tokens line (.ofLines (chars :: lines)) =
      .ofLine ⟨chars⟩ (line + 1) :: tokens (line + 1) (.ofLines lines) := by
  have hline := tokens_line line chars (.ofLines lines)
  rwa [dropMark_eq_self h] at hline

theorem tokens_append {front : List (List Char)}
    (hmark : ∀ chars ∈ front, chars.head? ≠ some '\uFEFF') (line : Nat)
    (back : List (List Char)) :
    tokens line (.ofLines (front ++ back)) =
      lineTokens line front ++ tokens (line + front.length) (.ofLines back) := by
  induction front generalizing line with
  | nil => rfl
  | cons chars front ih =>
      obtain ⟨hchars, hfront⟩ := List.forall_mem_cons.mp hmark
      rw [List.cons_append, tokens_cons hchars, ih hfront, Nat.add_right_comm]
      rfl

theorem tokens_ofLines (hmark : ∀ chars ∈ lines, chars.head? ≠ some '\uFEFF') (line : Nat) :
    tokens line (.ofLines lines) = lineTokens line lines ++ [.eof (line + lines.length + 1)] := by
  have happend := tokens_append hmark line []
  rwa [List.append_nil] at happend

/-- The tokens of lines in their new places. -/
theorem lineTokens_relocate {R : Relocation} {line line' : Nat}
    (hnumber : ∀ i < lines.length, R.number (line + i + 1) = line' + i + 1) :
    lineTokens line' (lines.map (R.blanks ++ ·)) =
      (lineTokens line lines).map (Token.relocate R) := by
  induction lines generalizing line line' with
  | nil => rfl
  | cons chars lines ih =>
      have hfirst : R.number (line + 1) = line' + 1 := hnumber 0 (Nat.succ_pos _)
      have hothers : ∀ i < lines.length, R.number (line + 1 + i + 1) = line' + 1 + i + 1 := by
        intro i hi
        have hnext := hnumber (i + 1) (Nat.succ_lt_succ hi)
        rwa [← Nat.add_assoc, ← Nat.add_assoc, Nat.add_right_comm line, Nat.add_right_comm line']
          at hnext
      rw [List.map_cons, lineTokens, ih hothers, lineTokens, List.map_cons, Token.relocate]
      simp only [Token.ofLine, hfirst]
      rfl

theorem suits_lineTokens {R : Relocation} (h : ∀ chars ∈ lines, '\n' ∈ chars → R.blanks = [])
    (line : Nat) : ∀ t ∈ lineTokens line lines, t.Suits R := by
  induction lines generalizing line with
  | nil => exact fun t ht => absurd ht List.not_mem_nil
  | cons chars lines ih =>
      obtain ⟨hchars, hlines⟩ := List.forall_mem_cons.mp h
      refine List.forall_mem_cons.mpr ⟨⟨rfl, fun l hl => ?_⟩, ih hlines (line + 1)⟩
      obtain rfl := Option.some.inj hl
      rw [Relocation.Suits, Line.raw, String.toList_ofList]
      exact hchars

/-- A byte order mark is not blank. -/
theorem head?_append_of_allBlank {blanks chars : List Char} (hblank : Text.AllBlank blanks)
    (h : chars.head? ≠ some '\uFEFF') : (blanks ++ chars).head? ≠ some '\uFEFF' := by
  cases blanks with
  | nil => exact h
  | cons c blanks =>
      intro hmark
      have hc := hblank c List.mem_cons_self
      rw [Option.some.inj hmark] at hc
      revert hc
      decide

/-- The tokens of the last lines of a source, with its end, in their new places. -/
theorem tokens_relocate {R : Relocation} {line line' : Nat}
    (hnumber : ∀ i ≤ lines.length, R.number (line + i + 1) = line' + i + 1)
    (hmark : ∀ chars ∈ lines, chars.head? ≠ some '\uFEFF') :
    tokens line' (.ofLines (lines.map (R.blanks ++ ·))) =
      (tokens line (.ofLines lines)).map (Token.relocate R) := by
  have hmark' : ∀ chars ∈ lines.map (R.blanks ++ ·), chars.head? ≠ some '\uFEFF' := by
    intro chars hchars
    obtain ⟨chars, hmem, rfl⟩ := List.mem_map.mp hchars
    exact head?_append_of_allBlank R.allBlank (hmark chars hmem)
  have hend : R.number (line + lines.length + 1) = line' + lines.length + 1 :=
    hnumber lines.length (Nat.le_refl _)
  rw [tokens_ofLines hmark, tokens_ofLines hmark', List.map_append,
    lineTokens_relocate fun i hi => hnumber i (Nat.le_of_lt hi), List.length_map,
    List.map_singleton, Token.relocate]
  simp only [Token.eof, hend]
  rfl

theorem suits_tokens {R : Relocation} (h : ∀ chars ∈ lines, '\n' ∈ chars → R.blanks = [])
    (hmark : ∀ chars ∈ lines, chars.head? ≠ some '\uFEFF') (line : Nat) :
    ∀ t ∈ tokens line (.ofLines lines), t.Suits R := by
  intro t ht
  rw [tokens_ofLines hmark, List.mem_append, List.mem_singleton] at ht
  rcases ht with ht | rfl
  · exact suits_lineTokens h line t ht
  · exact ⟨rfl, fun _ hl => nomatch hl⟩

end Source
end Gherkin
