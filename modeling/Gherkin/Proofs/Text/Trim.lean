import Gherkin.Text.Blank
import Mathlib.Data.List.DropRight
import Mathlib.Tactic.Common

/-!
# Trimming

Trimming does not see blanks at the end of a text, and so a description does
not see blank lines at its end.
-/

namespace Gherkin.Text

/-- A text of blanks. -/
def AllBlank (cs : List Char) : Prop :=
  ∀ c ∈ cs, isBlank c = true

theorem allBlank_append {cs cs' : List Char} (h : AllBlank cs) (h' : AllBlank cs') :
    AllBlank (cs ++ cs') := by
  intro c hc
  rcases List.mem_append.mp hc with hc | hc
  · exact h c hc
  · exact h' c hc

theorem trimStart_eq_nil_iff {cs : List Char} : trimStart cs = [] ↔ AllBlank cs :=
  List.dropWhile_eq_nil_iff

theorem trimStart_of_allBlank {cs : List Char} (h : AllBlank cs) : trimStart cs = [] :=
  trimStart_eq_nil_iff.mpr h

theorem trimEnd_append_of_allBlank (cs : List Char) {blanks : List Char}
    (h : AllBlank blanks) : trimEnd (cs ++ blanks) = trimEnd cs := by
  rw [trimEnd, List.reverse_append, List.dropWhile_append_of_pos, trimEnd]
  intro c hc
  exact h c (List.mem_reverse.mp hc)

theorem trim_append_of_allBlank (cs : List Char) {blanks : List Char}
    (h : AllBlank blanks) : trim (cs ++ blanks) = trim cs := by
  rw [trim, trimStart, List.dropWhile_append]
  split
  · next hcs =>
      have hnil : trimStart cs = [] := List.isEmpty_iff.mp hcs
      rw [trim, hnil]
      exact congrArg trimEnd (trimStart_of_allBlank h)
  · exact trimEnd_append_of_allBlank _ h

theorem trim_eq_nil_iff {cs : List Char} : trim cs = [] ↔ AllBlank cs := by
  constructor
  · intro h
    have hblank : AllBlank (trimStart cs) := by
      intro c hc
      rw [trim, trimEnd, List.reverse_eq_nil_iff, List.dropWhile_eq_nil_iff] at h
      exact h c (List.mem_reverse.mpr hc)
    have hhead : trimStart cs = [] := by
      rw [← trimStart_of_allBlank hblank]
      exact (List.dropWhile_idempotent isBlank cs).symm
    exact trimStart_eq_nil_iff.mp hhead
  · intro h
    rw [trim, trimStart_of_allBlank h]
    rfl

theorem trimStart_append_of_allBlank {blanks : List Char} (h : AllBlank blanks)
    (cs : List Char) : trimStart (blanks ++ cs) = trimStart cs :=
  List.dropWhile_append_of_pos h

theorem trim_append_left_of_allBlank {blanks : List Char} (h : AllBlank blanks)
    (cs : List Char) : trim (blanks ++ cs) = trim cs := by
  rw [trim, trimStart_append_of_allBlank h, trim]

theorem trimEnd_of_allBlank {cs : List Char} (h : AllBlank cs) : trimEnd cs = [] :=
  trimEnd_append_of_allBlank [] h

theorem trimEnd_append (front : List Char) {cs : List Char} (h : ¬AllBlank cs) :
    trimEnd (front ++ cs) = front ++ trimEnd cs := by
  have hne : ¬(cs.reverse.dropWhile isBlank).isEmpty = true := by
    intro hnil
    apply h
    intro c hc
    exact List.dropWhile_eq_nil_iff.mp (List.isEmpty_iff.mp hnil) c (List.mem_reverse.mpr hc)
  rw [trimEnd, List.reverse_append, List.dropWhile_append, if_neg hne, List.reverse_append,
    List.reverse_reverse, trimEnd]

theorem trimEnd_cons {c : Char} {cs : List Char} (h : ¬AllBlank (c :: cs)) :
    trimEnd (c :: cs) = c :: trimEnd cs := by
  by_cases hcs : AllBlank cs
  · have hc : ¬isBlank c = true := fun hc => h (List.forall_mem_cons.mpr ⟨hc, hcs⟩)
    rw [← List.singleton_append, trimEnd_append_of_allBlank [c] hcs, trimEnd_of_allBlank hcs,
      trimEnd, List.reverse_singleton, List.dropWhile_cons_of_neg hc]
    rfl
  · exact trimEnd_append [c] hcs

/-- A character that is not blank stays, and what stands on either side of it is
trimmed by itself. -/
theorem trim_append_cons {c : Char} (hc : isBlank c = false) (front rest : List Char) :
    trim (front ++ c :: rest) = trimStart front ++ c :: trimEnd rest := by
  have hneg : ¬isBlank c = true := by simp [hc]
  have hrest : ¬AllBlank (c :: rest) := fun h => hneg (h c List.mem_cons_self)
  have hstart : trimStart (front ++ c :: rest) = trimStart front ++ c :: rest := by
    rw [trimStart, List.dropWhile_append, List.dropWhile_cons_of_neg hneg]
    split
    · next hfront =>
        have hnil : trimStart front = [] := List.isEmpty_iff.mp hfront
        rw [hnil, List.nil_append]
    · rfl
  rw [trim, hstart, trimEnd_append _ hrest, trimEnd_cons hrest]

theorem allBlank_replicate (n : Nat) : AllBlank (List.replicate n ' ') := by
  intro c hc
  rw [List.eq_of_mem_replicate hc]
  rfl

theorem allBlank_singleton : AllBlank [' '] :=
  allBlank_replicate 1

theorem trimEnd_trimEnd (cs : List Char) : trimEnd (trimEnd cs) = trimEnd cs := by
  rw [trimEnd, trimEnd, List.reverse_reverse, List.dropWhile_idempotent]

theorem trim_sublist (cs : List Char) : (trim cs).Sublist cs := by
  have hend : (trimEnd (trimStart cs)).Sublist (trimStart cs) := by
    rw [trimEnd, ← List.reverse_sublist, List.reverse_reverse]
    exact List.dropWhile_sublist _
  exact hend.trans (List.dropWhile_sublist _)

theorem trim_of_forall_not_blank {cs : List Char} (h : ∀ c ∈ cs, isBlank c = false) :
    trim cs = cs := by
  have hstart {cs : List Char} (h : ∀ c ∈ cs, isBlank c = false) :
      cs.dropWhile isBlank = cs := by
    cases cs with
    | nil => rfl
    | cons c cs => exact List.dropWhile_cons_of_neg (by simp [h c List.mem_cons_self])
  rw [trim, trimStart, hstart h, trimEnd, hstart fun c hc => h c (List.mem_reverse.mp hc),
    List.reverse_reverse]

/-- Trimming a text again changes nothing. -/
theorem trim_trim (cs : List Char) : trim (trim cs) = trim cs := by
  have hprefix : trim cs <+: trimStart cs := by
    have hsuffix := List.dropWhile_suffix isBlank (l := (trimStart cs).reverse)
    rwa [← List.reverse_prefix, List.reverse_reverse] at hsuffix
  have hstart : trimStart (trim cs) = trim cs := by
    cases htrim : trim cs with
    | nil => rfl
    | cons c rest =>
        obtain ⟨more, hmore⟩ := hprefix
        have hnot := List.head?_dropWhile_not isBlank cs
        rw [← trimStart, ← hmore, htrim] at hnot
        exact List.dropWhile_cons_of_neg (by simpa using hnot)
  rw [trim, hstart, trim, trimEnd_trimEnd]

theorem trimString_trimString (s : String) : trimString (trimString s) = trimString s := by
  rw [trimString, trimString, String.toList_ofList, trim_trim]

/-- A trimmed text does not end in a blank. -/
theorem getLast?_ne_of_trim_eq {cs : List Char} (h : trim cs = cs) {c : Char}
    (hc : isBlank c = true) : cs.getLast? ≠ some c := by
  intro hlast
  rw [← h, trim, trimEnd, List.getLast?_reverse] at hlast
  have hnot := List.head?_dropWhile_not isBlank (trimStart cs).reverse
  rw [hlast] at hnot
  simp [hc] at hnot

/-! ### Joined lines -/

theorem forall_mem_intercalate {p : Char → Prop} {sep : List Char} (hsep : ∀ c ∈ sep, p c)
    {lines : List (List Char)} (h : ∀ line ∈ lines, ∀ c ∈ line, p c) :
    ∀ c ∈ sep.intercalate lines, p c := by
  induction lines with
  | nil => exact fun c hc => absurd hc List.not_mem_nil
  | cons line lines ih =>
      obtain ⟨hline, hlines⟩ := List.forall_mem_cons.mp h
      cases lines with
      | nil => simpa using hline
      | cons line' lines =>
          rw [List.intercalate_cons_cons, List.forall_mem_append, List.forall_mem_append]
          exact ⟨⟨hline, hsep⟩, ih hlines⟩

/-- Blank lines at the end of a text add nothing but blanks to it. -/
theorem exists_intercalate_append {sep : List Char} (hsep : AllBlank sep)
    (lines : List (List Char)) {blanks : List (List Char)}
    (h : ∀ line ∈ blanks, AllBlank line) :
    ∃ more, AllBlank more ∧
      sep.intercalate (lines ++ blanks) = sep.intercalate lines ++ more := by
  induction lines with
  | nil => exact ⟨_, forall_mem_intercalate hsep h, rfl⟩
  | cons line lines ih =>
      obtain ⟨more, hmore, heq⟩ := ih
      cases lines with
      | nil =>
          cases blanks with
          | nil => exact ⟨[], fun c hc => absurd hc List.not_mem_nil, by simp⟩
          | cons blank blanks =>
              refine ⟨sep ++ sep.intercalate (blank :: blanks), ?_, ?_⟩
              · exact allBlank_append hsep (forall_mem_intercalate hsep h)
              · simp [List.intercalate_cons_cons]
      | cons line' lines =>
          refine ⟨more, hmore, ?_⟩
          rw [List.cons_append, List.cons_append, List.intercalate_cons_cons,
            List.intercalate_cons_cons, ← List.cons_append, heq, ← List.append_assoc]

/-- Blank lines at the end of a text do not show when it is trimmed. -/
theorem trimString_intercalate_append (texts : List String) {blanks : List String}
    (h : ∀ text ∈ blanks, AllBlank text.toList) :
    trimString ("\n".intercalate (texts ++ blanks)) = trimString ("\n".intercalate texts) := by
  have hblank : ∀ cs ∈ blanks.map String.toList, AllBlank cs := by
    intro cs hcs
    obtain ⟨text, htext, rfl⟩ := List.mem_map.mp hcs
    exact h text htext
  have hbreak : AllBlank "\n".toList := by
    simp [AllBlank, isBlank]
  obtain ⟨more, hmore, hjoin⟩ :=
    exists_intercalate_append hbreak (texts.map String.toList) hblank
  rw [← List.map_append, ← String.toList_intercalate, ← String.toList_intercalate] at hjoin
  rw [trimString, trimString, hjoin, trim_append_of_allBlank _ hmore]

end Gherkin.Text
