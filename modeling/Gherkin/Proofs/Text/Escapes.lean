import Gherkin.Proofs.Text.Trim
import Gherkin.Separator

/-!
# Escaped separators

Inside a doc string its separator is written in an escaped form.  Undoing this
gives back every line that does not hold the escaped form, and a line that has
been escaped does not start with the separator.
-/

namespace Gherkin

namespace Text

variable {pattern value cs : List Char}

theorem replaceFrom_length_append (xs cs : List Char) :
    replaceFrom pattern value xs.length (xs ++ cs) = replaceFrom pattern value 0 cs := by
  induction xs with
  | nil => rfl
  | cons x xs ih => exact ih

theorem replace_append (hpattern : pattern ≠ []) (cs : List Char) :
    replace pattern value (pattern ++ cs) = value ++ replace pattern value cs := by
  obtain ⟨c, rest, rfl⟩ := List.exists_cons_of_ne_nil hpattern
  have hstart : (c :: rest).isPrefixOf (c :: (rest ++ cs)) = true :=
    List.isPrefixOf_iff_prefix.mpr (List.prefix_append (c :: rest) cs)
  rw [replace, List.cons_append, replaceFrom, if_pos hstart, List.length_cons,
    Nat.add_sub_cancel, replaceFrom_length_append, replace]

theorem replace_cons {c : Char} (h : ¬pattern <+: c :: cs) :
    replace pattern value (c :: cs) = c :: replace pattern value cs := by
  have hstart : ¬pattern.isPrefixOf (c :: cs) = true := by
    rwa [List.isPrefixOf_iff_prefix]
  rw [replace, replaceFrom, if_neg hstart, replace]

end Text

namespace Separator

variable {s : Separator} {cs : List Char}

/-- The character that a separator repeats. -/
def mark : Separator → Char
  | quotes => '"'
  | backticks => '\x60'

/-- The separator in its written form for a doc string that it opens. -/
def escape (s : Separator) (cs : List Char) : List Char :=
  Text.replace s.text.toList s.escaped.toList cs

theorem toList_text (s : Separator) : s.text.toList = [s.mark, s.mark, s.mark] := by
  cases s <;> rfl

theorem toList_escaped (s : Separator) :
    s.escaped.toList = ['\\', s.mark, '\\', s.mark, '\\', s.mark] := by
  cases s <;> rfl

theorem mark_ne_backslash (s : Separator) : s.mark ≠ '\\' := by
  cases s <;> decide

theorem isBlank_mark (s : Separator) : Text.isBlank s.mark = false := by
  cases s <;> rfl

theorem escape_append (cs : List Char) :
    s.escape (s.text.toList ++ cs) = s.escaped.toList ++ s.escape cs :=
  Text.replace_append (by rw [toList_text]; simp) cs

theorem escape_cons {c : Char} (h : ¬s.text.toList <+: c :: cs) :
    s.escape (c :: cs) = c :: s.escape cs :=
  Text.replace_cons h

/-- Texts are escaped from left to right, a separator at a time. -/
@[elab_as_elim]
theorem escape_induction (s : Separator) {motive : List Char → Prop} (nil : motive [])
    (separator : ∀ rest, motive rest → motive (s.text.toList ++ rest))
    (cons : ∀ c rest, ¬s.text.toList <+: c :: rest → motive rest → motive (c :: rest))
    (cs : List Char) : motive cs := by
  induction hlength : cs.length using Nat.strongRecOn generalizing cs with
  | ind n ih =>
      by_cases h : s.text.toList <+: cs
      · obtain ⟨rest, rfl⟩ := h
        have hshort : rest.length < n := by
          rw [← hlength, List.length_append, toList_text]
          simp
        exact separator rest (ih _ hshort rest rfl)
      · cases cs with
        | nil => exact nil
        | cons c rest =>
            have hshort : rest.length < n := by
              rw [← hlength]
              exact Nat.lt_succ_self _
            exact cons c rest h (ih _ hshort rest rfl)

/-- A text starts with a separator or else with a character that stays. -/
theorem escape_cases (s : Separator) (cs : List Char) :
    (∃ rest, cs = s.text.toList ++ rest ∧ s.escape cs = s.escaped.toList ++ s.escape rest) ∨
      ¬s.text.toList <+: cs ∧
        (cs = [] ∧ s.escape cs = [] ∨
          ∃ c rest, cs = c :: rest ∧ s.escape cs = c :: s.escape rest) := by
  by_cases h : s.text.toList <+: cs
  · obtain ⟨rest, rfl⟩ := h
    exact .inl ⟨rest, rfl, escape_append rest⟩
  · refine .inr ⟨h, ?_⟩
    cases cs with
    | nil => exact .inl ⟨rfl, rfl⟩
    | cons c rest => exact .inr ⟨c, rest, rfl, escape_cons h⟩

/-- What an escaped text starts with tells what the text starts with. -/
theorem exists_of_escape_eq_mark {out : List Char} (h : s.escape cs = s.mark :: out) :
    ¬s.text.toList <+: cs ∧ ∃ rest, cs = s.mark :: rest ∧ s.escape rest = out := by
  rcases s.escape_cases cs with ⟨rest, -, hout⟩ | ⟨hnot, ⟨-, hout⟩ | ⟨c, rest, hcs, hout⟩⟩
  · rw [hout, toList_escaped, List.cons_append] at h
    exact absurd (List.cons.inj h).1.symm s.mark_ne_backslash
  · rw [hout] at h
    cases h
  · rw [hout] at h
    obtain ⟨rfl, rfl⟩ := List.cons.inj h
    exact ⟨hnot, rest, hcs, rfl⟩

theorem exists_of_escape_eq_backslash {out : List Char} (hnot : ¬s.text.toList <+: cs)
    (h : s.escape cs = '\\' :: out) : ∃ rest, cs = '\\' :: rest ∧ s.escape rest = out := by
  rcases s.escape_cases cs with ⟨rest, hcs, -⟩ | ⟨-, ⟨-, hout⟩ | ⟨c, rest, hcs, hout⟩⟩
  · exact absurd ⟨rest, hcs.symm⟩ hnot
  · rw [hout] at h
    cases h
  · rw [hout] at h
    obtain ⟨rfl, rfl⟩ := List.cons.inj h
    exact ⟨rest, hcs, rfl⟩

/-- Behind a mark that stays no separator starts. -/
theorem not_prefix_of_cons_mark (h : ¬s.text.toList <+: s.mark :: cs) :
    ¬s.text.toList <+: cs := by
  rintro ⟨rest, rfl⟩
  refine h ⟨s.mark :: rest, ?_⟩
  simp [toList_text]

/-- An escaped text starts with the escaped form only where the text has the
separator or the escaped form. -/
theorem escaped_prefix_of_escape {c : Char} (hnot : ¬s.text.toList <+: c :: cs)
    (h : s.escaped.toList <+: c :: s.escape cs) : s.escaped.toList <+: c :: cs := by
  obtain ⟨out, hout⟩ := h
  rw [toList_escaped] at hout
  obtain ⟨rfl, htail⟩ := List.cons.inj hout
  obtain ⟨hmark, rest₁, rfl, h₁⟩ := exists_of_escape_eq_mark htail.symm
  obtain ⟨rest₂, rfl, h₂⟩ := exists_of_escape_eq_backslash (not_prefix_of_cons_mark hmark) h₁
  obtain ⟨hmark, rest₃, rfl, h₃⟩ := exists_of_escape_eq_mark h₂
  obtain ⟨rest₄, rfl, h₄⟩ := exists_of_escape_eq_backslash (not_prefix_of_cons_mark hmark) h₃
  obtain ⟨-, rest₅, rfl, -⟩ := exists_of_escape_eq_mark h₄
  exact ⟨rest₅, by rw [toList_escaped]; rfl⟩

/-- A text that does not hold the escaped form is found again. -/
theorem unescape_escape (h : ¬s.escaped.toList <:+: cs) : s.unescape (s.escape cs) = cs := by
  have hne : s.escaped.toList ≠ [] := by
    rw [toList_escaped]
    simp
  induction cs using escape_induction s with
  | nil => rfl
  | separator rest ih =>
      have hrest : ¬s.escaped.toList <:+: rest :=
        fun hmem => h (hmem.trans (List.suffix_append _ rest).isInfix)
      rw [escape_append, unescape, Text.replace_append hne]
      exact congrArg (s.text.toList ++ ·) (ih hrest)
  | cons c rest hnot ih =>
      have hrest : ¬s.escaped.toList <:+: rest :=
        fun hmem => h (hmem.trans (List.suffix_cons c rest).isInfix)
      have hkept : ¬s.escaped.toList <+: c :: s.escape rest :=
        fun hstart => h (escaped_prefix_of_escape hnot hstart).isInfix
      rw [escape_cons hnot, unescape, Text.replace_cons hkept]
      exact congrArg (c :: ·) (ih hrest)

/-- A text and its escaped form end in the same character. -/
theorem getLast?_escape (s : Separator) (cs : List Char) :
    (s.escape cs).getLast? = cs.getLast? := by
  induction cs using escape_induction s with
  | nil => rfl
  | separator rest ih =>
      have hends : s.escaped.toList.getLast? = s.text.toList.getLast? := by
        rw [toList_escaped, toList_text]
        rfl
      rw [escape_append, List.getLast?_append, List.getLast?_append, ih, hends]
  | cons c rest hnot ih =>
      rw [escape_cons hnot, List.getLast?_cons, List.getLast?_cons, ih]

/-- Escaping adds no characters but backslashes and marks. -/
theorem mem_of_mem_escape (s : Separator) {cs : List Char} {c : Char} (hslash : c ≠ '\\')
    (hmark : c ≠ s.mark) (h : c ∈ s.escape cs) : c ∈ cs := by
  induction cs using escape_induction s with
  | nil => exact h
  | separator rest ih =>
      rw [escape_append, toList_escaped] at h
      have hrest : c ∈ s.escape rest := by simpa [hslash, hmark] using h
      exact List.mem_append_right _ (ih hrest)
  | cons d rest hnot ih =>
      rw [escape_cons hnot] at h
      rcases List.mem_cons.mp h with rfl | hrest
      · exact List.mem_cons_self
      · exact List.mem_cons_of_mem d (ih hrest)

/-- Escaping leaves the blanks at the start of a text alone. -/
theorem trimStart_escape (s : Separator) (cs : List Char) :
    Text.trimStart (s.escape cs) = s.escape (Text.trimStart cs) := by
  induction cs with
  | nil => rfl
  | cons c cs ih =>
      by_cases hblank : Text.isBlank c = true
      · have hnot : ¬s.text.toList <+: c :: cs := by
          rintro ⟨rest, hrest⟩
          rw [toList_text] at hrest
          rw [← (List.cons.inj hrest).1, s.isBlank_mark] at hblank
          cases hblank
        rw [escape_cons hnot, Text.trimStart, Text.trimStart, List.dropWhile_cons_of_pos hblank,
          List.dropWhile_cons_of_pos hblank]
        exact ih
      · have hkeep : Text.trimStart (c :: cs) = c :: cs := List.dropWhile_cons_of_neg hblank
        rw [hkeep]
        rcases s.escape_cases (c :: cs) with ⟨rest, -, hout⟩ | ⟨-, ⟨hcs, -⟩ | ⟨d, rest, hcs, hout⟩⟩
        · rw [hout, toList_escaped]
          rfl
        · cases hcs
        · obtain ⟨rfl, rfl⟩ := List.cons.inj hcs
          rw [hout]
          exact List.dropWhile_cons_of_neg hblank

/-- No line that has been escaped starts with the separator. -/
theorem not_prefix_escape (s : Separator) (cs : List Char) : ¬s.text.toList <+: s.escape cs := by
  rintro ⟨out, hout⟩
  rw [toList_text] at hout
  obtain ⟨hnot, rest₁, rfl, h₁⟩ := exists_of_escape_eq_mark hout.symm
  obtain ⟨-, rest₂, rfl, h₂⟩ := exists_of_escape_eq_mark h₁
  obtain ⟨-, rest₃, rfl, -⟩ := exists_of_escape_eq_mark h₂
  exact hnot ⟨rest₃, by rw [toList_text]; rfl⟩

end Separator
end Gherkin
