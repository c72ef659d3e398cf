import Gherkin.Proofs.Text.Trim

/-!
# Hanging lines

A text hangs behind blanks when all its lines but the first one start with them.
Trimming the text leaves it hanging, and without the leading blanks of its lines
nothing is left of the difference.
-/

namespace Gherkin.Text

variable {w : List Char}

/-- The text with `w` behind each of its line breaks. -/
def hang (w cs : List Char) : List Char :=
  cs.flatMap fun c => if c = '\n' then '\n' :: w else [c]

/-- The text without the leading blanks of its lines. -/
def flushLeft (cs : List Char) : List Char :=
  ['\n'].intercalate ((cs.splitOn '\n').map trimStart)

theorem hang_append (w cs cs' : List Char) : hang w (cs ++ cs') = hang w cs ++ hang w cs' :=
  List.flatMap_append

theorem hang_break (w cs : List Char) : hang w ('\n' :: cs) = '\n' :: (w ++ hang w cs) :=
  rfl

theorem hang_cons {c : Char} (hc : c ≠ '\n') (w cs : List Char) :
    hang w (c :: cs) = c :: hang w cs := by
  rw [hang, List.flatMap_cons, if_neg hc]
  rfl

@[simp] theorem hang_nil_left (cs : List Char) : hang [] cs = cs := by
  induction cs with
  | nil => rfl
  | cons c cs ih =>
      by_cases hc : c = '\n'
      · rw [hc, hang_break, ih, List.nil_append]
      · rw [hang_cons hc, ih]

theorem hang_of_not_mem {cs : List Char} (h : '\n' ∉ cs) (w : List Char) : hang w cs = cs := by
  induction cs with
  | nil => rfl
  | cons c cs ih =>
      obtain ⟨hc, hcs⟩ := not_or.mp (List.mem_cons.not.mp h)
      rw [hang_cons (Ne.symm hc), ih hcs]

theorem allBlank_hang (hw : AllBlank w) {cs : List Char} (h : AllBlank cs) :
    AllBlank (hang w cs) := by
  intro c hc
  obtain ⟨d, hd, hmem⟩ := List.mem_flatMap.mp hc
  split at hmem
  · rcases List.mem_cons.mp hmem with rfl | hmem
    · rfl
    · exact hw c hmem
  · rw [List.mem_singleton.mp hmem]
    exact h d hd

/-! ### Trimming -/

theorem trimStart_hang (hw : AllBlank w) (cs : List Char) :
    trimStart (hang w cs) = hang w (trimStart cs) := by
  have hsplit := hang_append w (cs.takeWhile isBlank) (trimStart cs)
  rw [trimStart, List.takeWhile_append_dropWhile] at hsplit
  have hblank : AllBlank (hang w (cs.takeWhile isBlank)) :=
    allBlank_hang hw fun c hc => (List.mem_takeWhile_imp hc)
  rw [hsplit, trimStart_append_of_allBlank hblank, ← trimStart]
  -- what is left starts with a character that is neither blank nor a line break
  cases hrest : trimStart cs with
  | nil => rfl
  | cons c rest =>
      have hc : isBlank c = false := by
        have hnot := List.head?_dropWhile_not isBlank cs
        rw [← trimStart, hrest] at hnot
        simpa using hnot
      have hbreak : c ≠ '\n' := by
        rintro rfl
        cases hc
      rw [hang_cons hbreak]
      exact List.dropWhile_cons_of_neg (by simp [hc])

theorem trimEnd_hang (hw : AllBlank w) (cs : List Char) :
    trimEnd (hang w cs) = hang w (trimEnd cs) := by
  induction cs using List.reverseRecOn with
  | nil => rfl
  | append_singleton cs c ih =>
      by_cases hc : isBlank c = true
      · have hblank : AllBlank [c] := by simpa [AllBlank] using hc
        rw [hang_append, trimEnd_append_of_allBlank _ (allBlank_hang hw hblank), ih,
          trimEnd_append_of_allBlank _ hblank]
      · have hbreak : c ≠ '\n' := by
          rintro rfl
          exact hc rfl
        have hlast (ds : List Char) : trimEnd (ds ++ [c]) = ds ++ [c] := by
          simp [trimEnd, hc]
        rw [hlast, hang_append, hang_cons hbreak]
        exact hlast _

theorem trim_hang (hw : AllBlank w) (cs : List Char) : trim (hang w cs) = hang w (trim cs) := by
  rw [trim, trimStart_hang hw, trimEnd_hang hw, trim]

/-! ### Lines -/

/-- A text is joined from lines. -/
theorem exists_lines (cs : List Char) :
    ∃ first others, (∀ line ∈ first :: others, '\n' ∉ line) ∧
      cs = ['\n'].intercalate (first :: others) := by
  induction cs with
  | nil => exact ⟨[], [], by simp, rfl⟩
  | cons c cs ih =>
      obtain ⟨first, others, hlines, rfl⟩ := ih
      obtain ⟨hfirst, hothers⟩ := List.forall_mem_cons.mp hlines
      by_cases hc : c = '\n'
      · refine ⟨[], first :: others, ?_, ?_⟩
        · exact List.forall_mem_cons.mpr ⟨List.not_mem_nil, hlines⟩
        · rw [hc, List.intercalate_cons_cons]
          rfl
      · refine ⟨c :: first, others, ?_, ?_⟩
        · exact List.forall_mem_cons.mpr ⟨by simp [Ne.symm hc, hfirst], hothers⟩
        · cases others with
          | nil => rfl
          | cons other others =>
              rw [List.intercalate_cons_cons, List.intercalate_cons_cons]
              rfl

/-- All lines of a hanging text but the first one stand behind the blanks. -/
theorem hang_intercalate (w : List Char) {first : List Char} {others : List (List Char)}
    (h : ∀ line ∈ first :: others, '\n' ∉ line) :
    hang w (['\n'].intercalate (first :: others)) =
      ['\n'].intercalate (first :: others.map (w ++ ·)) := by
  induction others generalizing first with
  | nil =>
      rw [List.map_nil, List.intercalate_singleton]
      exact hang_of_not_mem (h first List.mem_cons_self) w
  | cons other others ih =>
      obtain ⟨hfirst, hothers⟩ := List.forall_mem_cons.mp h
      have hjoin : ['\n'].intercalate ((w ++ other) :: others.map (w ++ ·)) =
          w ++ ['\n'].intercalate (other :: others.map (w ++ ·)) := by
        cases others with
        | nil => simp
        | cons line lines => simp [List.intercalate_cons_cons]
      rw [List.map_cons, List.intercalate_cons_cons, List.intercalate_cons_cons, hjoin,
        hang_append, hang_append, hang_of_not_mem hfirst, ih hothers]
      simp [hang]

/-- Lines that stand behind blanks are joined to a hanging text behind the blanks. -/
theorem intercalate_map_append {lines : List (List Char)} (hne : lines ≠ [])
    (h : ∀ line ∈ lines, '\n' ∈ line → w = []) :
    ['\n'].intercalate (lines.map (w ++ ·)) = w ++ hang w (['\n'].intercalate lines) := by
  by_cases hw : w = []
  · simp [hw]
  · obtain ⟨first, others, rfl⟩ := List.exists_cons_of_ne_nil hne
    rw [hang_intercalate w fun line hline hbreak => hw (h line hline hbreak)]
    cases others with
    | nil => simp
    | cons other others => simp [List.intercalate_cons_cons]

/-- Only empty lines are joined to the empty text. -/
theorem eq_nil_of_intercalate_eq_nil {lines : List (List Char)}
    (h : ['\n'].intercalate lines = []) : ∀ line ∈ lines, line = [] := by
  intro line hline
  cases lines with
  | nil => cases hline
  | cons first others =>
      cases others with
      | nil =>
          rw [List.mem_singleton.mp hline]
          simpa using h
      | cons other others => simp [List.intercalate_cons_cons] at h

/-- A text hangs behind blanks that its lines do not show without their leading blanks. -/
theorem flushLeft_hang (hw : AllBlank w) (hbreak : '\n' ∉ w) (cs : List Char) :
    flushLeft (hang w cs) = flushLeft cs := by
  obtain ⟨first, others, hlines, rfl⟩ := exists_lines cs
  obtain ⟨hfirst, hothers⟩ := List.forall_mem_cons.mp hlines
  have hhung : ∀ line ∈ first :: others.map (w ++ ·), '\n' ∉ line := by
    refine List.forall_mem_cons.mpr ⟨hfirst, fun line hline => ?_⟩
    obtain ⟨other, hother, rfl⟩ := List.mem_map.mp hline
    simp [hbreak, hothers other hother]
  rw [hang_intercalate w hlines, flushLeft, flushLeft,
    List.splitOn_intercalate '\n' hhung (List.cons_ne_nil _ _),
    List.splitOn_intercalate '\n' hlines (List.cons_ne_nil _ _), List.map_cons, List.map_cons,
    List.map_map]
  refine congrArg (fun lines => ['\n'].intercalate (trimStart first :: lines)) ?_
  exact List.map_congr_left fun line _ => trimStart_append_of_allBlank hw line

end Gherkin.Text
