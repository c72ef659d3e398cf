import Gherkin.Line.Cells
import Gherkin.Proofs.Text.Places
import Gherkin.Proofs.Text.Trim

/-!
# Rows cut at their bars

A row falls into pieces at its bars, where a backslash takes the next character with
it.  The cells of a line are the pieces that have a bar on either side, decoded and
trimmed.
-/

namespace Gherkin

namespace Text

/-- A text in which every backslash has a character to pair with. -/
inductive Paired : List Char → Prop
  | nil : Paired []
  | pair (c : Char) {cs : List Char} (rest : Paired cs) : Paired ('\\' :: c :: cs)
  | single {c : Char} (hc : c ≠ '\\') {cs : List Char} (rest : Paired cs) : Paired (c :: cs)

/-- The number of bars that do not belong to a pair. -/
def bars : List Char → Nat
  | [] => 0
  | '\\' :: _ :: cs => bars cs
  | '|' :: cs => bars cs + 1
  | _ :: cs => bars cs

/-- The text that is meant: three pairs stand for one character each. -/
def decode : List Char → List Char
  | [] => []
  | '\\' :: 'n' :: cs => '\n' :: decode cs
  | '\\' :: '|' :: cs => '|' :: decode cs
  | '\\' :: '\\' :: cs => '\\' :: decode cs
  | '\\' :: c :: cs => '\\' :: c :: decode cs
  | c :: cs => c :: decode cs

/-- A text that can end in a bar which is not paired and holds no other such bar. -/
structure IsPiece (cs : List Char) : Prop where
  paired : Paired cs
  bars_eq_zero : bars cs = 0

/-- A text is cut into the pieces that end in a bar and what follows the last bar. -/
inductive CutAtBars : List Char → List (List Char) → List Char → Prop
  | last {cs : List Char} (hbars : bars cs = 0) : CutAtBars cs [] cs
  | closed {piece cs last : List Char} {pieces : List (List Char)} (hpiece : IsPiece piece)
      (rest : CutAtBars cs pieces last) : CutAtBars (piece ++ '|' :: cs) (piece :: pieces) last

/-! ### One pair or one character -/

/--
Induction on a text in the way in which it is read.  Only a backslash at its very end is
neither in a pair nor a character by itself.
-/
@[elab_as_elim]
theorem pairInduction {motive : List Char → Prop} (nil : motive []) (lone : motive ['\\'])
    (pair : ∀ c cs, motive cs → motive ('\\' :: c :: cs))
    (single : ∀ c cs, c ≠ '\\' → motive cs → motive (c :: cs)) : ∀ cs, motive cs
  | [] => nil
  | [c] =>
    if hc : c = '\\' then hc ▸ lone else single c [] hc nil
  | c :: d :: cs =>
    if hc : c = '\\' then hc ▸ pair d cs (pairInduction nil lone pair single cs)
    else single c (d :: cs) hc (pairInduction nil lone pair single (d :: cs))

section Steps

variable {c : Char}

theorem bars_single (hc : c ≠ '\\') (cs : List Char) :
    bars (c :: cs) = (if c = '|' then 1 else 0) + bars cs := by
  by_cases hbar : c = '|'
  · subst hbar
    rw [bars, if_pos rfl, Nat.add_comm]
  · rw [bars, if_neg hbar, Nat.zero_add]
    · exact fun _ _ h _ => hc h
    · exact hbar

theorem decode_single (hc : c ≠ '\\') (cs : List Char) : decode (c :: cs) = c :: decode cs := by
  rw [decode]
  · exact fun _ h _ => hc h
  · exact fun _ h _ => hc h
  · exact fun _ h _ => hc h
  · exact fun _ _ h _ => hc h

theorem decode_pair (c : Char) (cs : List Char) :
    decode ('\\' :: c :: cs) = (CellUnit.escaped c).value ++ decode cs := by
  by_cases hn : c = 'n'
  · subst hn
    rfl
  by_cases hbar : c = '|'
  · subst hbar
    rfl
  by_cases hbackslash : c = '\\'
  · subst hbackslash
    rfl
  · rw [decode, CellUnit.value]
    · rfl
    all_goals assumption

theorem value_escaped (hc : c ∉ ['n', '|', '\\']) :
    (CellUnit.escaped c).value = ['\\', c] := by
  rw [CellUnit.value]
  · rintro rfl
    exact hc (by decide)
  · rintro rfl
    exact hc (by decide)
  · rintro rfl
    exact hc (by decide)

theorem ofChars_single (hc : c ≠ '\\') (cs : List Char) :
    CellUnit.ofChars (c :: cs) =
      (if c = '|' then CellUnit.bar else CellUnit.plain c) :: CellUnit.ofChars cs := by
  by_cases hbar : c = '|'
  · subst hbar
    rfl
  · rw [CellUnit.ofChars, if_neg hbar]
    · exact hbar
    · exact fun h _ => hc h
    · exact fun _ _ h _ => hc h

end Steps

/-! ### A paired text in front of another text -/

section Front

variable {front : List Char}

theorem Paired.append (h : Paired front) {cs : List Char} (hcs : Paired cs) :
    Paired (front ++ cs) := by
  induction h with
  | nil => exact hcs
  | pair c _ ih => exact .pair c ih
  | single hc _ ih => exact .single hc ih

theorem bars_append (h : Paired front) (cs : List Char) :
    bars (front ++ cs) = bars front + bars cs := by
  induction h with
  | nil => exact (Nat.zero_add _).symm
  | pair c _ ih => exact ih
  | single hc _ ih =>
      rw [List.cons_append, bars_single hc, bars_single hc, ih, Nat.add_assoc]

theorem decode_append (h : Paired front) (cs : List Char) :
    decode (front ++ cs) = decode front ++ decode cs := by
  induction h with
  | nil => rfl
  | pair c _ ih =>
      rw [List.cons_append, List.cons_append, decode_pair, decode_pair, ih, List.append_assoc]
  | single hc _ ih =>
      rw [List.cons_append, decode_single hc, decode_single hc, ih, List.cons_append]

theorem ofChars_append (h : Paired front) (cs : List Char) :
    CellUnit.ofChars (front ++ cs) = CellUnit.ofChars front ++ CellUnit.ofChars cs := by
  induction h with
  | nil => rfl
  | pair c _ ih => exact congrArg (CellUnit.escaped c :: ·) ih
  | single hc _ ih =>
      rw [List.cons_append, ofChars_single hc, ofChars_single hc, ih, List.cons_append]

end Front

/-! ### Pieces -/

namespace IsPiece

variable {piece cs : List Char}

theorem nil : IsPiece [] :=
  ⟨.nil, rfl⟩

theorem pair (c : Char) : IsPiece ['\\', c] :=
  ⟨.pair c .nil, rfl⟩

theorem single {c : Char} (hbackslash : c ≠ '\\') (hbar : c ≠ '|') : IsPiece [c] where
  paired := .single hbackslash .nil
  bars_eq_zero := by
    rw [bars_single hbackslash, if_neg hbar]
    rfl

theorem append (hpiece : IsPiece piece) (hcs : IsPiece cs) : IsPiece (piece ++ cs) where
  paired := hpiece.paired.append hcs.paired
  bars_eq_zero := by
    rw [bars_append hpiece.paired, hpiece.bars_eq_zero, hcs.bars_eq_zero]

end IsPiece

theorem not_special_of_isBlank {c : Char} (hc : isBlank c = true) : c ≠ '\\' ∧ c ≠ '|' := by
  constructor
  · rintro rfl
    exact absurd hc (by decide)
  · rintro rfl
    exact absurd hc (by decide)

theorem isPiece_of_allBlank {blanks : List Char} (h : AllBlank blanks) : IsPiece blanks := by
  induction blanks with
  | nil => exact .nil
  | cons c blanks ih =>
      obtain ⟨hc, hblanks⟩ := List.forall_mem_cons.mp h
      obtain ⟨hbackslash, hbar⟩ := not_special_of_isBlank hc
      exact (IsPiece.single hbackslash hbar).append (ih hblanks)

theorem decode_of_allBlank {blanks : List Char} (h : AllBlank blanks) :
    decode blanks = blanks := by
  induction blanks with
  | nil => rfl
  | cons c blanks ih =>
      obtain ⟨hc, hblanks⟩ := List.forall_mem_cons.mp h
      rw [decode_single (not_special_of_isBlank hc).1, ih hblanks]

/-- A pair that stands for no other character stays, though its character may belong to
the blank end of the text. -/
theorem trim_decode_pair {front : List Char} (hfront : Paired front) {c : Char}
    (hc : c ∉ ['n', '|', '\\']) (rest : List Char) :
    trim (decode (front ++ '\\' :: c :: rest)) =
      trimStart (decode front) ++ '\\' :: trimEnd (c :: decode rest) := by
  rw [decode_append hfront, decode_pair, value_escaped hc]
  exact trim_append_cons (by decide) (decode front) (c :: decode rest)

/-! ### Cuts -/

theorem cutAtBars_flatMap {pieces : List (List Char)} (h : ∀ piece ∈ pieces, IsPiece piece)
    {last : List Char} (hlast : bars last = 0) :
    CutAtBars ((pieces.flatMap fun piece => piece ++ ['|']) ++ last) pieces last := by
  induction pieces with
  | nil => exact .last hlast
  | cons piece pieces ih =>
      obtain ⟨hpiece, hpieces⟩ := List.forall_mem_cons.mp h
      rw [List.flatMap_cons, List.append_assoc, List.append_assoc]
      exact .closed hpiece (ih hpieces)

namespace CutAtBars

/-- What stands in front of a text belongs to its first piece. -/
theorem exists_prepend {front cs last : List Char} {pieces : List (List Char)}
    (hfront : IsPiece front) (h : CutAtBars cs pieces last) :
    ∃ pieces last, CutAtBars (front ++ cs) pieces last := by
  cases h with
  | last hlast =>
      refine ⟨[], front ++ cs, .last ?_⟩
      rw [bars_append hfront.paired, hfront.bars_eq_zero, hlast]
  | @closed piece rest last pieces hpiece hrest =>
      refine ⟨(front ++ piece) :: pieces, last, ?_⟩
      rw [← List.append_assoc]
      exact .closed (hfront.append hpiece) hrest

end CutAtBars

theorem exists_cutAtBars (cs : List Char) : ∃ pieces last, CutAtBars cs pieces last := by
  induction cs using pairInduction with
  | nil => exact ⟨[], [], .last rfl⟩
  | lone => exact ⟨[], ['\\'], .last rfl⟩
  | pair c cs ih =>
      obtain ⟨pieces, last, h⟩ := ih
      exact h.exists_prepend (.pair c)
  | single c cs hc ih =>
      obtain ⟨pieces, last, h⟩ := ih
      by_cases hbar : c = '|'
      · rw [hbar]
        exact ⟨[] :: pieces, last, .closed .nil h⟩
      · exact h.exists_prepend (.single hc hbar)

/-! ### What is read -/

theorem flatMap_value_ofChars (cs : List Char) :
    (CellUnit.ofChars cs).flatMap CellUnit.value = decode cs := by
  induction cs using pairInduction with
  | nil => rfl
  | lone => rfl
  | pair c cs ih => rw [decode_pair, ← ih, CellUnit.ofChars, List.flatMap_cons]
  | single c cs hc ih =>
      rw [decode_single hc, ← ih, ofChars_single hc, List.flatMap_cons]
      split
      · next hbar => rw [hbar]; rfl
      · rfl

theorem beq_bar_eq_false {cs : List Char} (h : bars cs = 0) :
    ∀ u ∈ CellUnit.ofChars cs, (u == CellUnit.bar) = false := by
  induction cs using pairInduction with
  | nil => exact fun u hu => absurd hu List.not_mem_nil
  | lone => exact List.forall_mem_singleton.mpr rfl
  | pair c cs ih => exact List.forall_mem_cons.mpr ⟨rfl, ih h⟩
  | single c cs hc ih =>
      rw [bars_single hc, Nat.add_eq_zero_iff] at h
      obtain ⟨hone, hrest⟩ := h
      have hbar : c ≠ '|' := by
        rintro rfl
        exact absurd hone (by decide)
      rw [ofChars_single hc, if_neg hbar]
      exact List.forall_mem_cons.mpr ⟨rfl, ih hrest⟩

namespace CutAtBars

variable {cs last : List Char} {pieces : List (List Char)}

/-- There are as many bars as pieces that end in one. -/
theorem bars_eq (h : CutAtBars cs pieces last) : bars cs = pieces.length := by
  induction h with
  | last hbars => exact hbars
  | closed hpiece _ ih =>
      rw [bars_append hpiece.paired, hpiece.bars_eq_zero, Nat.zero_add, List.length_cons, ← ih]
      rfl

theorem splitOnP_ofChars (h : CutAtBars cs pieces last) :
    (CellUnit.ofChars cs).splitOnP (· == .bar) =
      pieces.map CellUnit.ofChars ++ [CellUnit.ofChars last] := by
  induction h with
  | last hbars => exact List.splitOnP_eq_singleton (beq_bar_eq_false hbars)
  | closed hpiece _ ih =>
      rw [ofChars_append hpiece.paired, CellUnit.ofChars,
        List.splitOnP_append_cons_of_forall_mem (beq_bar_eq_false hpiece.bars_eq_zero)
          CellUnit.bar rfl, ih]
      rfl

end CutAtBars

/-- What holds no separator belongs to the first piece. -/
theorem splitOnP_append {α : Type} {p : α → Bool} {front : List α}
    (h : ∀ a ∈ front, p a = false) (as : List α) :
    (front ++ as).splitOnP p = (as.splitOnP p).modifyHead (front ++ ·) := by
  induction front with
  | nil => exact (congrFun List.modifyHead_id _).symm
  | cons a front ih =>
      obtain ⟨ha, hfront⟩ := List.forall_mem_cons.mp h
      have hneg : ¬p a = true := by simp [ha]
      rw [List.cons_append, List.splitOnP_cons_eq_if_modifyHead, if_neg hneg, ih hfront,
        List.modifyHead_modifyHead]
      rfl

/-- Units are as wide as the characters that they are read from. -/
theorem totalWidth_ofChars (cs : List Char) :
    totalWidth CellUnit.width (CellUnit.ofChars cs) = totalWidth (fun _ => 1) cs := by
  induction cs using pairInduction with
  | nil => rfl
  | lone => rfl
  | pair c cs ih =>
      rw [CellUnit.ofChars, totalWidth_cons, totalWidth_cons, totalWidth_cons, ih, CellUnit.width,
        ← Nat.add_assoc]
  | single c cs hc ih =>
      rw [ofChars_single hc, totalWidth_cons, totalWidth_cons, ih]
      split <;> rfl

end Text

namespace Line

theorem exists_indentation (l : Line) :
    ∃ blanks, Text.AllBlank blanks ∧ l.indent = blanks.length ∧ l.chars = blanks ++ l.trimmed :=
  ⟨l.chars.takeWhile Text.isBlank, fun _ => List.mem_takeWhile_imp, rfl,
    List.takeWhile_append_dropWhile.symm⟩

/-- Indentation belongs to the first piece, which is no cell. -/
theorem tail_place_trimmed (l : Line) :
    (Text.place CellUnit.width (l.indent + 1)
      ((CellUnit.ofChars l.trimmed).splitOnP (· == .bar))).tail =
    (Text.place CellUnit.width 1 ((CellUnit.ofChars l.chars).splitOnP (· == .bar))).tail := by
  obtain ⟨blanks, hblanks, hindent, hchars⟩ := l.exists_indentation
  have hpiece := Text.isPiece_of_allBlank hblanks
  rw [hchars, Text.ofChars_append hpiece.paired,
    Text.splitOnP_append (Text.beq_bar_eq_false hpiece.bars_eq_zero),
    Text.tail_place_modifyHead, Text.totalWidth_ofChars, Text.totalWidth_chars, hindent,
    Nat.add_comm 1]

variable {l : Line} {pieces : List (List Char)} {last : List Char}

/-- The cells of a line are the pieces between its bars, which stand where they are written. -/
theorem cells_of_cut (h : Text.CutAtBars l.chars pieces last) :
    l.cells = (Text.place (fun _ => 1) 1 pieces).tail.map fun x =>
      .ofCell x.1 (Text.decode x.2) := by
  rw [Line.cells, tail_place_trimmed, h.splitOnP_ofChars, ← List.tail_dropLast,
    Text.dropLast_place_concat, Text.place_map Text.totalWidth_ofChars, ← List.map_tail,
    List.map_map]
  simp only [Function.comp_def, Text.flatMap_value_ofChars]

theorem map_text_cells_of_cut (h : Text.CutAtBars l.chars pieces last) :
    l.cells.map Span.text =
      pieces.tail.map fun piece => String.ofList (Text.trim (Text.decode piece)) := by
  have hpieces := Text.map_snd_place (fun _ => 1) 1 pieces
  rw [cells_of_cut h, List.map_map]
  conv_rhs => rw [← hpieces, ← List.map_tail, List.map_map]
  rfl

/-- A line has one cell fewer than it has bars. -/
theorem length_cells (l : Line) : l.cells.length = Text.bars l.chars - 1 := by
  obtain ⟨pieces, last, h⟩ := Text.exists_cutAtBars l.chars
  rw [← List.length_map Span.text, map_text_cells_of_cut h, h.bars_eq, List.length_map,
    List.length_tail]

end Line
end Gherkin
