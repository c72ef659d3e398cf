import Gherkin.Line
import Gherkin.Proofs.Text.Places
import Gherkin.Proofs.Text.Trim

/-!
# Words

The words of a text are its maximal runs of characters that are not blank, each
with the position of its first character, from the left to the right.
-/

namespace Gherkin

namespace Text

/-- A maximal run of characters that are not blank stands behind `offset` other characters. -/
def RunAt (cs : List Char) (offset : Nat) (run : List Char) : Prop :=
  ∃ front back, cs = front ++ (run ++ back) ∧ front.length = offset ∧
    run ≠ [] ∧ (∀ c ∈ run, isBlank c = false) ∧
    (∀ c ∈ front.getLast?, isBlank c = true) ∧ ∀ c ∈ back.head?, isBlank c = true

theorem pairwise_words (p : Char → Bool) (start : Nat) (cs : List Char) :
    (words p start cs).Pairwise fun x y => x.1 < y.1 :=
  ((pairwise_place _ _ _).imp fun h => Nat.lt_of_le_of_lt (Nat.le_add_right _ _) h).filter _

/-! ### Words one by one -/

/-- A text is one word, or a word in front of a blank and more text. -/
theorem word_induction {motive : List Char → Prop}
    (word : ∀ word, (∀ c ∈ word, isBlank c = false) → motive word)
    (append : ∀ word blank cs, (∀ c ∈ word, isBlank c = false) → isBlank blank = true →
      motive cs → motive (word ++ blank :: cs)) (cs : List Char) : motive cs := by
  have hbehind : ∀ cs front, (∀ c ∈ front, isBlank c = false) → motive (front ++ cs) := by
    intro cs
    induction cs with
    | nil =>
        intro front hfront
        rw [List.append_nil]
        exact word front hfront
    | cons c cs ih =>
        intro front hfront
        cases hc : isBlank c with
        | true => exact append front c cs hfront hc (ih [] fun _ h => by cases h)
        | false =>
            rw [List.append_cons]
            refine ih (front ++ [c]) fun x hx => ?_
            rcases List.mem_append.mp hx with hx | hx
            · exact hfront x hx
            · rw [List.mem_singleton.mp hx]
              exact hc
  exact hbehind cs [] fun _ h => by cases h

variable {word cs : List Char} {blank : Char}

theorem words_word (start : Nat) (h : ∀ c ∈ word, isBlank c = false) :
    words isBlank start word = if word = [] then [] else [(start, word)] := by
  rw [words, List.splitOnP_eq_singleton h, place, place]
  cases word <;> rfl

theorem words_append_cons (start : Nat) (h : ∀ c ∈ word, isBlank c = false)
    (hblank : isBlank blank = true) (cs : List Char) :
    words isBlank start (word ++ blank :: cs) =
      words isBlank start word ++ words isBlank (start + word.length + 1) cs := by
  rw [words, List.splitOnP_append_cons_of_forall_mem h blank hblank, place, totalWidth_chars,
    ← List.singleton_append, List.filter_append, words_word start h]
  cases word <;> rfl

/-! ### Runs -/

theorem eq_nil_of_getLast? (h : ∀ c ∈ cs, isBlank c = false)
    (hlast : ∀ c ∈ cs.getLast?, isBlank c = true) : cs = [] := by
  cases hcs : cs.getLast? with
  | none => exact List.getLast?_eq_none_iff.mp hcs
  | some c => exact absurd (hlast c hcs) (by simp [h c (List.mem_of_getLast? hcs)])

theorem eq_nil_of_head? (h : ∀ c ∈ cs, isBlank c = false)
    (hfirst : ∀ c ∈ cs.head?, isBlank c = true) : cs = [] := by
  cases cs with
  | nil => rfl
  | cons c cs => exact absurd (hfirst c rfl) (by simp [h c List.mem_cons_self])

variable {offset : Nat} {run : List Char}

/-- A text without blanks is one run. -/
theorem runAt_word_iff (h : ∀ c ∈ word, isBlank c = false) :
    RunAt word offset run ↔ offset = 0 ∧ run = word ∧ word ≠ [] := by
  constructor
  · rintro ⟨front, back, rfl, rfl, hne, -, hfront, hback⟩
    obtain rfl := eq_nil_of_getLast? (fun c hc => h c (by simp [hc])) hfront
    obtain rfl := eq_nil_of_head? (fun c hc => h c (by simp [hc])) hback
    exact ⟨rfl, by simp, by simpa using hne⟩
  · rintro ⟨rfl, rfl, hne⟩
    exact ⟨[], [], by simp, rfl, hne, h, nofun, nofun⟩

/-- A run that ends at a blank. -/
theorem RunAt.append_cons (h : RunAt word offset run) (hblank : isBlank blank = true)
    (cs : List Char) : RunAt (word ++ blank :: cs) offset run := by
  obtain ⟨front, back, rfl, rfl, hne, hrun, hfront, hback⟩ := h
  refine ⟨front, back ++ blank :: cs, by simp, rfl, hne, hrun, hfront, fun c hc => ?_⟩
  cases back with
  | nil =>
      obtain rfl := Option.some.inj hc
      exact hblank
  | cons first back => exact hback c hc

/-- A run that may start behind a blank. -/
theorem RunAt.behind_cons (h : RunAt cs offset run) (hblank : isBlank blank = true)
    (word : List Char) : RunAt (word ++ blank :: cs) (word.length + 1 + offset) run := by
  obtain ⟨front, back, rfl, rfl, hne, hrun, hfront, hback⟩ := h
  refine ⟨word ++ blank :: front, back, by simp, by simp [Nat.add_assoc, Nat.add_comm 1], hne,
    hrun, fun c hc => ?_, hback⟩
  rw [Option.mem_def, List.getLast?_append, List.getLast?_cons] at hc
  cases hlast : front.getLast? with
  | none =>
      rw [hlast] at hc
      obtain rfl := Option.some.inj hc
      exact hblank
  | some last =>
      rw [hlast] at hc
      obtain rfl := Option.some.inj hc
      exact hfront _ hlast

/-- A run does not go over a blank. -/
theorem RunAt.cases_append_cons (h : RunAt (word ++ blank :: cs) offset run)
    (hblank : isBlank blank = true) :
    RunAt word offset run ∨ ∃ n, offset = word.length + 1 + n ∧ RunAt cs n run := by
  obtain ⟨front, back, hsplit, rfl, hne, hrun, hfront, hback⟩ := h
  rcases List.append_eq_append_iff.mp hsplit with ⟨behind, rfl, hrest⟩ | ⟨behind, rfl, hrest⟩
  · right
    rcases List.cons_eq_append_iff.mp hrest with ⟨rfl, hrest⟩ | ⟨others, rfl, rfl⟩
    · -- the run would start with the blank
      obtain ⟨first, others, rfl⟩ := List.exists_cons_of_ne_nil hne
      rw [List.cons_append] at hrest
      obtain ⟨rfl, -⟩ := List.cons.inj hrest
      rw [hrun _ List.mem_cons_self] at hblank
      cases hblank
    · refine ⟨others.length, by simp [Nat.add_assoc, Nat.add_comm 1], ?_⟩
      refine ⟨others, back, rfl, rfl, hne, hrun, fun c hc => hfront c ?_, hback⟩
      rw [Option.mem_def] at hc ⊢
      rw [List.getLast?_append, List.getLast?_cons, hc]
      rfl
  · left
    rcases List.append_eq_append_iff.mp hrest with ⟨others, rfl, rfl⟩ | ⟨others, rfl, hends⟩
    · refine ⟨front, others, rfl, rfl, hne, hrun, hfront, fun c hc => hback c ?_⟩
      rw [Option.mem_def] at hc ⊢
      rw [List.head?_append, hc]
      rfl
    · rcases List.cons_eq_append_iff.mp hends with ⟨rfl, -⟩ | ⟨others, rfl, -⟩
      · rw [List.append_nil] at hne hrun ⊢
        exact ⟨front, [], by simp, rfl, hne, hrun, hfront, nofun⟩
      · -- the run would go on with the blank
        rw [hrun blank (by simp)] at hblank
        cases hblank

/-- A run stands in front of a blank or behind it. -/
theorem runAt_append_cons_iff (hblank : isBlank blank = true) :
    RunAt (word ++ blank :: cs) offset run ↔
      RunAt word offset run ∨ ∃ n, offset = word.length + 1 + n ∧ RunAt cs n run := by
  refine ⟨fun h => h.cases_append_cons hblank, ?_⟩
  rintro (h | ⟨n, rfl, h⟩)
  · exact h.append_cons hblank cs
  · exact h.behind_cons hblank word

theorem mem_words_word_iff {start column : Nat} (h : ∀ c ∈ word, isBlank c = false) :
    (column, run) ∈ words isBlank start word ↔ ∃ n, column = start + n ∧ RunAt word n run := by
  simp only [runAt_word_iff h]
  rw [words_word start h]
  split
  · next hnil => simp [hnil]
  · next hne => simp [hne]

/-- The words of a text are its runs. -/
theorem mem_words_iff {start column : Nat} :
    (column, run) ∈ words isBlank start cs ↔ ∃ n, column = start + n ∧ RunAt cs n run := by
  induction cs using word_induction generalizing start with
  | word word h => exact mem_words_word_iff h
  | append word blank cs h hblank ih =>
      rw [words_append_cons start h hblank, List.mem_append, mem_words_word_iff h, ih]
      simp only [runAt_append_cons_iff hblank, and_or_left, exists_or]
      refine or_congr_right ⟨?_, ?_⟩
      · rintro ⟨n, rfl, hrun⟩
        exact ⟨word.length + 1 + n, by omega, n, rfl, hrun⟩
      · rintro ⟨_, rfl, n, rfl, hrun⟩
        exact ⟨n, by omega, hrun⟩

/-- Blanks in front of a text only move its words. -/
theorem words_append_of_allBlank {blanks : List Char} (h : AllBlank blanks) (start : Nat)
    (cs : List Char) :
    words isBlank start (blanks ++ cs) = words isBlank (start + blanks.length) cs := by
  induction blanks generalizing start with
  | nil => rfl
  | cons c blanks ih =>
      have hnil : ∀ c ∈ ([] : List Char), isBlank c = false := nofun
      have hfirst := words_append_cons start hnil (h c List.mem_cons_self) (blanks ++ cs)
      have hnone : words isBlank start [] = [] := rfl
      rw [List.nil_append, hnone, List.nil_append] at hfirst
      rw [List.cons_append, hfirst, ih fun x hx => h x (List.mem_cons_of_mem _ hx),
        List.length_cons]
      congr 1
      simp only [List.length_nil]
      omega

end Text

namespace Line

/-- The words of a line stand in the columns that they have on the line. -/
theorem words_eq (l : Line) :
    l.words = (Text.words Text.isBlank 1 l.chars).map fun x => ⟨x.1, String.ofList x.2⟩ := by
  have hblank : Text.AllBlank (l.chars.takeWhile Text.isBlank) := fun c hc =>
    List.mem_takeWhile_imp hc
  have hmoved := Text.words_append_of_allBlank hblank 1 (l.chars.dropWhile Text.isBlank)
  rw [List.takeWhile_append_dropWhile] at hmoved
  rw [hmoved, words, indent, trimmed, Text.trimStart, Nat.add_comm]

theorem mem_words_iff {l : Line} {word : Span} :
    word ∈ l.words ↔ ∃ n, word.column = n + 1 ∧ Text.RunAt l.chars n word.text.toList := by
  rw [words_eq, List.mem_map]
  constructor
  · rintro ⟨⟨column, run⟩, hmem, rfl⟩
    obtain ⟨n, rfl, hrun⟩ := Text.mem_words_iff.mp hmem
    exact ⟨n, Nat.add_comm 1 n, by simpa using hrun⟩
  · rintro ⟨n, hcolumn, hrun⟩
    refine ⟨(word.column, word.text.toList), Text.mem_words_iff.mpr ⟨n, by omega, hrun⟩, ?_⟩
    rw [String.ofList_toList]

theorem pairwise_words (l : Line) : l.words.Pairwise fun x y => x.column < y.column := by
  rw [words_eq]
  exact List.pairwise_map.mpr (Text.pairwise_words _ _ _)

end Line
end Gherkin
