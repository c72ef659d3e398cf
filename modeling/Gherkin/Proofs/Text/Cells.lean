import Gherkin.Proofs.Text.Rows

/-!
# Written cells

Cells that have been written between bars, with their bars, backslashes and line
breaks escaped, are found again.  Blanks around them and what follows the last bar
make no difference.
-/

namespace Gherkin

namespace CellUnit

/-- The unit in which a character is written. -/
def ofChar (c : Char) : CellUnit :=
  if c = '|' then escaped '|'
  else if c = '\\' then escaped '\\'
  else if c = '\n' then escaped 'n'
  else plain c

/-- How a unit is written. -/
def chars : CellUnit → List Char
  | bar => ['|']
  | plain c => [c]
  | escaped c => ['\\', c]

/-- A character is written as a pair that stands for it, or as it is. -/
theorem chars_ofChar_cases (c : Char) :
    (∃ d, (ofChar c).chars = ['\\', d] ∧ d ≠ '\n' ∧ (escaped d).value = [c]) ∨
      ((ofChar c).chars = [c] ∧ c ≠ '\n' ∧ c ≠ '\\' ∧ c ≠ '|') := by
  rw [ofChar]
  split
  · next hbar => exact .inl ⟨'|', rfl, by decide, by rw [hbar]; rfl⟩
  · next hbar =>
      split
      · next hbackslash => exact .inl ⟨'\\', rfl, by decide, by rw [hbackslash]; rfl⟩
      · next hbackslash =>
          split
          · next hbreak => exact .inl ⟨'n', rfl, by decide, by rw [hbreak]; rfl⟩
          · next hbreak => exact .inr ⟨rfl, hbreak, hbackslash, hbar⟩

end CellUnit

namespace Text

open CellUnit

/-- The written form of the text of a cell. -/
def escapeCell (cell : List Char) : List Char :=
  (cell.map ofChar).flatMap CellUnit.chars

/-- A row of cells between bars. -/
def rowText (cells : List (List Char)) : List Char :=
  cells.flatMap (fun cell => '|' :: ' ' :: escapeCell cell ++ [' ']) ++ ['|']

/-! ### Escaped texts -/

theorem escapeCell_cons (c : Char) (cell : List Char) :
    escapeCell (c :: cell) = (ofChar c).chars ++ escapeCell cell := by
  rw [escapeCell, List.map_cons, List.flatMap_cons, escapeCell]

theorem isPiece_escapeCell (cell : List Char) : IsPiece (escapeCell cell) := by
  induction cell with
  | nil => exact .nil
  | cons c cell ih =>
      rw [escapeCell_cons]
      rcases chars_ofChar_cases c with ⟨d, hd, -, -⟩ | ⟨hc, -, hbackslash, hbar⟩
      · rw [hd]
        exact (IsPiece.pair d).append ih
      · rw [hc]
        exact (IsPiece.single hbackslash hbar).append ih

theorem decode_escapeCell (cell : List Char) : decode (escapeCell cell) = cell := by
  induction cell with
  | nil => rfl
  | cons c cell ih =>
      rw [escapeCell_cons]
      rcases chars_ofChar_cases c with ⟨d, hd, -, hvalue⟩ | ⟨hc, -, hbackslash, -⟩
      · rw [hd, List.cons_append, List.singleton_append, decode_pair, hvalue, ih,
          List.singleton_append]
      · rw [hc, List.singleton_append, decode_single hbackslash, ih]

theorem break_not_mem_escapeCell (cell : List Char) : '\n' ∉ escapeCell cell := by
  induction cell with
  | nil => exact List.not_mem_nil
  | cons c cell ih =>
      rw [escapeCell_cons, List.mem_append, not_or]
      refine ⟨?_, ih⟩
      rcases chars_ofChar_cases c with ⟨d, hd, hbreak, -⟩ | ⟨hc, hbreak, -, -⟩
      · simp [hd, Ne.symm hbreak]
      · simp [hc, Ne.symm hbreak]

/-! ### Rows -/

theorem rowText_cons (cell : List Char) (cells : List (List Char)) :
    rowText (cell :: cells) =
      '|' :: ' ' :: (escapeCell cell ++ ' ' :: rowText cells) := by
  simp [rowText]

theorem break_not_mem_rowText (cells : List (List Char)) : '\n' ∉ rowText cells := by
  simp [rowText, break_not_mem_escapeCell]

theorem getLast?_rowText (cells : List (List Char)) : (rowText cells).getLast? = some '|' := by
  rw [rowText, List.getLast?_concat]

/-- The text of a cell with the blanks that it is written between. -/
structure PaddedCell where
  left : List Char
  text : List Char
  right : List Char
  leftBlank : AllBlank left
  rightBlank : AllBlank right

namespace PaddedCell

/-- How a cell is written. -/
def written (c : PaddedCell) : List Char :=
  c.left ++ escapeCell c.text ++ c.right

/-- A cell between single blanks. -/
def ofText (cell : List Char) : PaddedCell :=
  ⟨[' '], cell, [' '], allBlank_singleton, allBlank_singleton⟩

theorem isPiece_written (c : PaddedCell) : IsPiece c.written :=
  ((isPiece_of_allBlank c.leftBlank).append (isPiece_escapeCell c.text)).append
    (isPiece_of_allBlank c.rightBlank)

/-- A written cell means its text, up to the blanks around it. -/
theorem trim_decode_written (c : PaddedCell) : trim (decode c.written) = trim c.text := by
  have hleft := isPiece_of_allBlank c.leftBlank
  have hfront := hleft.append (isPiece_escapeCell c.text)
  rw [written, decode_append hfront.paired, decode_append hleft.paired, decode_escapeCell,
    decode_of_allBlank c.leftBlank, decode_of_allBlank c.rightBlank,
    trim_append_of_allBlank _ c.rightBlank, trim_append_left_of_allBlank c.leftBlank]

end PaddedCell

/-- A row of cells, and what follows its last bar. -/
def paddedRow (cells : List PaddedCell) (trailing : List Char) : List Char :=
  '|' :: ((cells.flatMap fun c => c.written ++ ['|']) ++ trailing)

theorem rowText_eq_paddedRow (cells : List (List Char)) :
    rowText cells = paddedRow (cells.map PaddedCell.ofText) [] := by
  induction cells with
  | nil => rfl
  | cons cell cells ih =>
      rw [rowText_cons, ih]
      simp [paddedRow, PaddedCell.written, PaddedCell.ofText]

theorem cutAtBars_paddedRow {indentation : List Char} (hblank : AllBlank indentation)
    (cells : List PaddedCell) {trailing : List Char} (hbars : bars trailing = 0) :
    CutAtBars (indentation ++ paddedRow cells trailing)
      (indentation :: cells.map PaddedCell.written) trailing := by
  have hcells : ∀ piece ∈ cells.map PaddedCell.written, IsPiece piece :=
    List.forall_mem_map.mpr fun c _ => c.isPiece_written
  have hcut := cutAtBars_flatMap hcells hbars
  rw [List.flatMap_map] at hcut
  exact .closed (isPiece_of_allBlank hblank) hcut

end Text

namespace Line

open Text

/-- The cells of a written row have their texts, trimmed. -/
theorem map_text_cells_paddedRow {l : Line} {indentation trailing : List Char}
    {cells : List PaddedCell} (hl : l.chars = indentation ++ paddedRow cells trailing)
    (hblank : AllBlank indentation) (hbars : bars trailing = 0) :
    l.cells.map Span.text = cells.map fun c => String.ofList (trim c.text) := by
  have hcut : CutAtBars l.chars (indentation :: cells.map PaddedCell.written) trailing := by
    rw [hl]
    exact cutAtBars_paddedRow hblank cells hbars
  rw [map_text_cells_of_cut hcut, List.tail_cons, List.map_map]
  refine List.map_congr_left fun c _ => ?_
  rw [Function.comp_apply, c.trim_decode_written]

/-- Trimmed cells that have been written as a row are found again. -/
theorem map_text_cells {l : Line} {cells : List (List Char)}
    (hrow : l.trimmed = rowText cells) (htrim : ∀ cell ∈ cells, trim cell = cell) :
    l.cells.map Span.text = cells.map String.ofList := by
  obtain ⟨blanks, hblanks, -, hl⟩ := l.exists_indentation
  rw [hrow, rowText_eq_paddedRow] at hl
  rw [map_text_cells_paddedRow hl hblanks rfl, List.map_map]
  refine List.map_congr_left fun cell hcell => ?_
  exact congrArg String.ofList (htrim cell hcell)

/--
Rows are read as they have been written, whatever is written in their cells.  And every
line has one cell fewer than it has bars outside pairs: its cells are the pieces between
those bars, where a pair that stands for no other character stays, except that its
character is trimmed off when nothing but blanks follows.
-/
theorem reads_cells :
    (∀ indentation cells trailing, AllBlank indentation → bars trailing = 0 →
      (Line.mk (indentation ++ paddedRow cells trailing)).cells.map Span.text =
        cells.map fun c => String.ofList (trim c.text)) ∧
    ∀ l : Line, l.cells.length = bars l.chars - 1 ∧
      (∃ pieces last, CutAtBars l.chars pieces last) ∧
      ∀ pieces last, CutAtBars l.chars pieces last →
        l.cells.map Span.text = pieces.tail.map (fun piece => String.ofList (trim (decode piece))) ∧
        ∀ piece ∈ pieces.tail, ∀ front c rest,
          piece = front ++ '\\' :: c :: rest → Paired front → c ∉ ['n', '|', '\\'] →
          (¬AllBlank (c :: decode rest) →
            trim (decode piece) = trimStart (decode front) ++ '\\' :: c :: trimEnd (decode rest)) ∧
          (AllBlank (c :: decode rest) →
            trim (decode piece) = trimStart (decode front) ++ ['\\']) := by
  constructor
  · intro indentation cells trailing hblank hbars
    exact map_text_cells_paddedRow rfl hblank hbars
  · intro l
    refine ⟨l.length_cells, exists_cutAtBars l.chars, ?_⟩
    intro pieces last hcut
    refine ⟨map_text_cells_of_cut hcut, ?_⟩
    rintro piece - front c rest rfl hfront hc
    rw [trim_decode_pair hfront hc]
    constructor
    · intro hstays
      rw [trimEnd_cons hstays]
    · intro hblank
      rw [trimEnd_of_allBlank hblank]

/-- The cells of an indented row with something behind it, and the two pairs of `|a\tb\ |`. -/
theorem reads_cells_of_pairs :
    AllBlank ['\t'] ∧ bars ['\\', '|', 'x'] = 0 ∧
    (Line.mk (['\t'] ++ paddedRow [.ofText ['a', '|'], .ofText ['\\']] ['\\', '|', 'x'])).cells.map
      Span.text = ["a|", "\\"] ∧
    CutAtBars ['|', 'a', '\\', 't', 'b', '\\', ' ', '|'] [[], ['a', '\\', 't', 'b', '\\', ' ']] [] ∧
    (Paired ['a'] ∧ 't' ∉ ['n', '|', '\\'] ∧ ¬AllBlank ('t' :: decode ['b', '\\', ' ']) ∧
      trim (decode ['a', '\\', 't', 'b', '\\', ' ']) = ['a', '\\', 't', 'b', '\\']) ∧
    (Paired ['a', '\\', 't', 'b'] ∧ ' ' ∉ ['n', '|', '\\'] ∧ AllBlank (' ' :: decode []) ∧
      trim (decode ['a', '\\', 't', 'b', '\\', ' ']) = ['a', '\\', 't', 'b', '\\']) := by
  have hblank : AllBlank ['\t'] := by simp [AllBlank, isBlank]
  have ha : Paired ['a'] := .single (by decide) .nil
  have hb : Paired ['a', '\\', 't', 'b'] :=
    .single (by decide) (.pair 't' (.single (by decide) .nil))
  have hall : Paired ['a', '\\', 't', 'b', '\\', ' '] := hb.append (.pair ' ' .nil)
  have hcut : CutAtBars ['|', 'a', '\\', 't', 'b', '\\', ' ', '|']
      [[], ['a', '\\', 't', 'b', '\\', ' ']] [] :=
    .closed .nil (.closed ⟨hall, rfl⟩ (.last rfl))
  have ht : ¬AllBlank ('t' :: decode ['b', '\\', ' ']) := by simp [AllBlank, isBlank]
  have hend : AllBlank (' ' :: decode []) := allBlank_singleton
  have hmem : ['a', '\\', 't', 'b', '\\', ' '] ∈ [[], ['a', '\\', 't', 'b', '\\', ' ']].tail :=
    List.mem_singleton_self _
  obtain ⟨hrows, hlines⟩ := reads_cells
  have hpairs := ((hlines _).2.2 _ _ hcut).2 _ hmem
  refine ⟨hblank, rfl, hrows _ _ _ hblank rfl, hcut, ⟨ha, by decide, ht, ?_⟩,
    ⟨hb, by decide, hend, ?_⟩⟩
  · exact (hpairs ['a'] 't' ['b', '\\', ' '] rfl ha (by decide)).1 ht
  · exact (hpairs ['a', '\\', 't', 'b'] ' ' [] rfl hb (by decide)).2 hend

/-- Not every pair stays whole: of `|a\ |` the blank is trimmed off. -/
theorem not_every_pair_stays :
    ¬∀ (l : Line) (pieces : List (List Char)) (last : List Char),
      CutAtBars l.chars pieces last → ∀ (i : Nat) (piece : List Char),
        pieces.tail[i]? = some piece → ∀ front c rest,
          piece = front ++ '\\' :: c :: rest → Paired front → c ∉ ['n', '|', '\\'] →
            ∃ span, l.cells[i]? = some span ∧ ['\\', c] <:+: span.text.toList := by
  intro h
  have ha : Paired ['a'] := .single (by decide) .nil
  have hcut : CutAtBars ['|', 'a', '\\', ' ', '|'] [[], ['a', '\\', ' ']] [] :=
    .closed .nil (.closed ⟨ha.append (.pair ' ' .nil), rfl⟩ (.last rfl))
  obtain ⟨span, hspan, hpair⟩ :=
    h ⟨['|', 'a', '\\', ' ', '|']⟩ _ _ hcut 0 _ rfl ['a'] ' ' [] rfl ha (by decide)
  have htext : span.text = "a\\" := by
    have hfirst := congrArg (·[0]?) (map_text_cells_of_cut (l := ⟨_⟩) hcut)
    rw [List.getElem?_map, hspan] at hfirst
    exact Option.some.inj hfirst
  rw [htext] at hpair
  exact absurd (hpair.eq_of_length rfl) (by decide)

end Line

end Gherkin
