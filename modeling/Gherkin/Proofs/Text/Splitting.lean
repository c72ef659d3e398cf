import Gherkin.Proofs.Text.Trim
import Gherkin.Source
import Gherkin.Text.Pieces
import Mathlib.Algebra.Ring.Nat

/-!
# Splitting what has been joined

Pieces that hold no separator are found again when the text that they have been
joined to is split.
-/

namespace Gherkin

namespace Text

theorem splitOnP_intercalate {p : Char → Bool} {sep : Char} (hsep : p sep = true)
    {pieces : List (List Char)} (hne : pieces ≠ [])
    (h : ∀ piece ∈ pieces, ∀ c ∈ piece, p c = false) :
    ([sep].intercalate pieces).splitOnP p = pieces := by
  induction pieces with
  | nil => exact absurd rfl hne
  | cons piece pieces ih =>
      have hpiece := h piece (by simp)
      cases pieces with
      | nil => simpa using List.splitOnP_eq_singleton hpiece
      | cons piece' pieces =>
          rw [List.intercalate_cons_cons, List.append_assoc, List.singleton_append,
            List.splitOnP_append_cons_of_forall_mem hpiece sep hsep,
            ih (by simp) fun piece hmem => h piece (by simp [hmem])]

theorem count_intercalate {c : Char} {sep : List Char} (hsep : c ∉ sep)
    (pieces : List (List Char)) : (sep.intercalate pieces).count c = pieces.flatten.count c := by
  induction pieces with
  | nil => rfl
  | cons piece pieces ih =>
      cases pieces with
      | nil => simp
      | cons piece' pieces =>
          rw [List.intercalate_cons_cons, List.flatten_cons, List.count_append, List.count_append,
            List.count_append, ih, List.count_eq_zero_of_not_mem hsep, Nat.add_zero]

/-- A piece holds characters of the text, and none that it is split at. -/
theorem mem_of_mem_splitOnP {p : Char → Bool} {cs piece : List Char}
    (h : piece ∈ cs.splitOnP p) : ∀ c ∈ piece, c ∈ cs ∧ p c = false := by
  induction cs generalizing piece with
  | nil =>
      rw [List.splitOnP_nil, List.mem_singleton] at h
      rw [h]
      exact fun c hc => absurd hc List.not_mem_nil
  | cons c cs ih =>
      have hothers {piece : List Char} (h : piece ∈ cs.splitOnP p) :
          ∀ d ∈ piece, d ∈ c :: cs ∧ p d = false :=
        fun d hd => ⟨List.mem_cons_of_mem _ (ih h d hd).1, (ih h d hd).2⟩
      rw [List.splitOnP_cons_eq_if_modifyHead] at h
      cases hc : p c with
      | true =>
          rw [hc, if_pos rfl, List.mem_cons] at h
          rcases h with rfl | h
          · exact fun d hd => absurd hd List.not_mem_nil
          · exact hothers h
      | false =>
          rw [hc, if_neg Bool.false_ne_true] at h
          cases hsplit : cs.splitOnP p with
          | nil => exact absurd hsplit (List.splitOnP_ne_nil p cs)
          | cons first others =>
              rw [hsplit] at hothers h
              rcases List.mem_cons.mp h with rfl | h
              · exact List.forall_mem_cons.mpr
                  ⟨⟨List.mem_cons_self, hc⟩, hothers List.mem_cons_self⟩
              · exact hothers (List.mem_cons_of_mem _ h)

/-- Words that have been joined by blanks are found again. -/
theorem map_snd_words (start : Nat) {ws : List (List Char)}
    (h : ∀ w ∈ ws, w ≠ [] ∧ ∀ c ∈ w, isBlank c = false) :
    (words isBlank start ([' '].intercalate ws)).map Prod.snd = ws := by
  have hfilter : ∀ pieces : List (List Char), ∀ start,
      ((place (fun _ => 1) start pieces).filter fun piece => !piece.2.isEmpty).map
        Prod.snd = pieces.filter fun piece => !piece.isEmpty := by
    intro pieces
    induction pieces with
    | nil => exact fun start => rfl
    | cons piece pieces ih =>
        intro start
        cases piece with
        | nil => exact ih _
        | cons c cs => exact congrArg ((c :: cs) :: ·) (ih _)
  rw [words, hfilter]
  cases ws with
  | nil => rfl
  | cons w ws =>
      rw [splitOnP_intercalate rfl (by simp) fun w hw => (h w hw).2]
      refine List.filter_eq_self.mpr fun w hw => ?_
      simpa using (h w hw).1

end Text

/-- A text is cut into the pieces that end in a line feed and what follows the last
line feed. -/
structure CutInto (cs : List Char) (terminated : List (List Char)) (last : List Char) : Prop where
  break_not_mem : ∀ piece ∈ terminated, '\n' ∉ piece
  break_not_mem_last : '\n' ∉ last
  join : cs = (terminated.flatMap fun piece => piece ++ ['\n']) ++ last

theorem exists_cutInto (cs : List Char) : ∃ terminated last, CutInto cs terminated last := by
  induction cs with
  | nil => exact ⟨[], [], by simp, by simp, rfl⟩
  | cons c cs ih =>
      obtain ⟨terminated, last, hterminated, hlast, rfl⟩ := ih
      by_cases hc : c = '\n'
      · subst hc
        exact ⟨[] :: terminated, last, by simpa using hterminated, hlast, rfl⟩
      · cases terminated with
        | nil => exact ⟨[], c :: last, by simp, by simp [Ne.symm hc, hlast], rfl⟩
        | cons piece pieces =>
            obtain ⟨hpiece, hpieces⟩ := List.forall_mem_cons.mp hterminated
            refine ⟨(c :: piece) :: pieces, last, ?_, hlast, rfl⟩
            exact List.forall_mem_cons.mpr ⟨by simp [Ne.symm hc, hpiece], hpieces⟩

/-- The lines of a text that has been cut. -/
theorem textLines_of_cutInto {cs : List Char} {terminated : List (List Char)} {last : List Char}
    (h : CutInto cs terminated last) :
    textLines cs = terminated.map dropReturn ++ if last.isEmpty then [] else [last] := by
  have hsplit : cs.splitOn '\n' = terminated ++ [last] := by
    obtain ⟨hterminated, hlast, rfl⟩ := h
    have hbreak {piece : List Char} (hpiece : '\n' ∉ piece) : ∀ c ∈ piece, (c == '\n') = false := by
      intro c hc
      rw [beq_eq_false_iff_ne]
      rintro rfl
      exact hpiece hc
    rw [List.splitOn_eq_splitOnP]
    induction terminated with
    | nil => exact List.splitOnP_eq_singleton (hbreak hlast)
    | cons piece pieces ih =>
        obtain ⟨hpiece, hpieces⟩ := List.forall_mem_cons.mp hterminated
        rw [List.flatMap_cons, List.append_assoc, List.append_assoc, List.singleton_append,
          List.splitOnP_append_cons_of_forall_mem (hbreak hpiece) '\n' rfl, ih hpieces]
        rfl
  simp only [textLines, hsplit, List.dropLast_concat, List.getLast?_concat]
  cases last <;> rfl

/-- The lines of a text of terminated lines. -/
theorem textLines_flatMap {lines : List (List Char)} (h : ∀ line ∈ lines, '\n' ∉ line) :
    textLines (lines.flatMap fun line => line ++ ['\n']) = lines.map dropReturn := by
  have hcut : CutInto (lines.flatMap fun line => line ++ ['\n']) lines [] :=
    ⟨h, List.not_mem_nil, (List.append_nil _).symm⟩
  rw [textLines_of_cutInto hcut]
  exact List.append_nil _

theorem count_flatMap_lines (lines : List (List Char)) :
    (lines.flatMap fun line => line ++ ['\n']).count '\n' =
      lines.length + (lines.map (List.count '\n')).sum := by
  induction lines with
  | nil => rfl
  | cons line lines ih =>
      rw [List.flatMap_cons, List.count_append, List.count_append, ih, List.map_cons,
        List.sum_cons, List.length_cons, List.count_singleton_self]
      omega

/-- Lines that are all ended by a line break are found again if they hold none. -/
theorem cutInto_iff (lines : List (List Char)) :
    CutInto (lines.flatMap fun line => line ++ ['\n']) lines [] ↔
      ∀ line ∈ lines, line.count '\n' = 0 := by
  simp only [List.count_eq_zero]
  exact ⟨fun h => h.break_not_mem, fun h => ⟨h, List.not_mem_nil, (List.append_nil _).symm⟩⟩

/-! ### Carriage returns -/

theorem dropReturn_concat (cs : List Char) : dropReturn (cs ++ ['\r']) = cs := by
  rw [dropReturn, if_pos List.getLast?_concat, List.dropLast_concat]

theorem dropReturn_eq_self {cs : List Char} (h : '\r' ∉ cs) : dropReturn cs = cs :=
  if_neg fun hlast => h (List.mem_of_getLast? hlast)

/-- A line keeps its carriage return or loses it, whatever stands in front of it. -/
theorem dropReturn_append {front : List Char} (h : '\r' ∉ front) (line : List Char) :
    dropReturn (front ++ line) = front ++ dropReturn line := by
  by_cases hline : line = []
  · rw [hline, List.append_nil, dropReturn_eq_self h]
    exact (List.append_nil front).symm
  · rw [dropReturn, dropReturn, List.getLast?_append_of_ne_nil _ hline]
    split
    · exact List.dropLast_append_of_ne_nil hline
    · rfl

theorem dropReturn_subset (line : List Char) : dropReturn line ⊆ line := by
  rw [dropReturn]
  split
  · exact List.dropLast_subset line
  · exact List.Subset.refl line

/-- A line of a text holds no line break. -/
theorem break_not_mem_textLines {cs line : List Char} (h : line ∈ textLines cs) : '\n' ∉ line := by
  obtain ⟨terminated, last, hcut⟩ := exists_cutInto cs
  rw [textLines_of_cutInto hcut, List.mem_append] at h
  rcases h with h | h
  · obtain ⟨piece, hpiece, rfl⟩ := List.mem_map.mp h
    exact fun hbreak => hcut.break_not_mem piece hpiece (dropReturn_subset piece hbreak)
  · split at h
    · cases h
    · obtain rfl := List.mem_singleton.mp h
      exact hcut.break_not_mem_last

theorem head?_dropReturn {line : List Char} {c : Char} (h : line.head? ≠ some c) :
    (dropReturn line).head? ≠ some c := by
  rw [dropReturn]
  split
  · cases line with
    | nil => exact h
    | cons d line =>
        cases line with
        | nil => simp
        | cons e line => exact h
  · exact h

end Gherkin
