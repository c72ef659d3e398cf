import Gherkin.Proofs.Text.Rows

/-!
# Columns of cells

The column of a cell counts the characters that its text is behind, and it counts
them as they are meant.  So it is where the text of the cell starts on its line
unless there is a line break among the blanks in front of the text, which is one
character but is written as two.
-/

namespace Gherkin

namespace Text

/-- A piece of a row stands between two bars.  In front of the first one stands `before`, which
holds `i` other bars. -/
structure CellAt (cs : List Char) (i : Nat) (before piece : List Char) : Prop where
  paired : Paired before
  bars_eq : bars before = i
  isPiece : IsPiece piece
  exists_after : ∃ after, cs = before ++ '|' :: (piece ++ '|' :: after)

/-- The text of a cell starts with `c`, which is written as `source`: as itself, as a pair that
stands for it, or as the backslash of a pair that stands for no other character.  All that is
written in front of it means blanks. -/
structure StartsWith (piece lead source : List Char) (c : Char) : Prop where
  paired : Paired lead
  blank : AllBlank (decode lead)
  source_cases : (∃ d, source = ['\\', d]) ∨ source = [c] ∧ c ≠ '\\'
  head?_decode : (decode source).head? = some c
  not_blank : isBlank c = false
  exists_rest : ∃ rest, piece = lead ++ (source ++ rest)

/-! ### Lengths of meanings -/

/-- A pair that stands for a line break is blank, and no other pair starts with a blank. -/
theorem value_escaped_cases (c : Char) :
    (c = 'n' ∧ (CellUnit.escaped c).value = ['\n']) ∨
      ∃ d more, (CellUnit.escaped c).value = d :: more ∧ isBlank d = false ∧ more.length ≤ 1 := by
  by_cases hc : c ∈ ['n', '|', '\\']
  · rw [List.mem_cons, List.mem_cons, List.mem_singleton] at hc
    rcases hc with rfl | rfl | rfl
    · exact .inl ⟨rfl, rfl⟩
    · exact .inr ⟨'|', [], rfl, by decide, Nat.zero_le _⟩
    · exact .inr ⟨'\\', [], rfl, by decide, Nat.zero_le _⟩
  · exact .inr ⟨'\\', [c], value_escaped hc, by decide, Nat.le_refl _⟩

theorem length_decode_le (cs : List Char) : (decode cs).length ≤ cs.length := by
  induction cs using pairInduction with
  | nil => exact Nat.le_refl _
  | lone => exact Nat.le_refl _
  | pair c cs ih =>
      rw [decode_pair, List.length_append, List.length_cons, List.length_cons]
      rcases value_escaped_cases c with ⟨-, hvalue⟩ | ⟨d, more, hvalue, -, hmore⟩
      · rw [hvalue, List.length_singleton]
        omega
      · rw [hvalue, List.length_cons]
        omega
  | single c cs hc ih =>
      rw [decode_single hc, List.length_cons, List.length_cons]
      omega

/-- What means blanks is as long as it is written if it is blank as it is written. -/
theorem length_decode_eq_iff {lead : List Char} (hlead : Paired lead)
    (hblank : AllBlank (decode lead)) : (decode lead).length = lead.length ↔ AllBlank lead := by
  constructor
  · intro hlength
    induction hlead with
    | nil => exact hblank
    | @pair c cs _ ih =>
        -- the pair is a line break, and the rest would have to make up for it
        exfalso
        have hle := length_decode_le cs
        rw [decode_pair] at hblank hlength
        rcases value_escaped_cases c with ⟨-, hvalue⟩ | ⟨d, more, hvalue, hd, -⟩
        · rw [hvalue, List.length_append, List.length_singleton, List.length_cons,
            List.length_cons] at hlength
          omega
        · rw [hvalue] at hblank
          rw [hblank d List.mem_cons_self] at hd
          cases hd
    | @single c hc cs _ ih =>
        rw [decode_single hc] at hblank hlength
        obtain ⟨hfirst, hrest⟩ := List.forall_mem_cons.mp hblank
        rw [List.length_cons, List.length_cons, Nat.add_right_cancel_iff] at hlength
        exact List.forall_mem_cons.mpr ⟨hfirst, ih hrest hlength⟩
  · intro hwritten
    rw [decode_of_allBlank hwritten]

/-! ### Where texts start -/

namespace StartsWith

variable {piece lead source front : List Char} {c : Char}

/-- Blanks in front of a text do not belong to it. -/
theorem behind (h : StartsWith piece lead source c) (hfront : Paired front)
    (hblank : AllBlank (decode front)) : StartsWith (front ++ piece) (front ++ lead) source c where
  paired := hfront.append h.paired
  blank := by
    rw [decode_append hfront]
    exact allBlank_append hblank h.blank
  source_cases := h.source_cases
  head?_decode := h.head?_decode
  not_blank := h.not_blank
  exists_rest := by
    obtain ⟨rest, rfl⟩ := h.exists_rest
    exact ⟨rest, (List.append_assoc _ _ _).symm⟩

theorem decode_eq (h : StartsWith piece lead source c) :
    ∃ more, decode piece = decode lead ++ c :: more := by
  obtain ⟨rest, rfl⟩ := h.exists_rest
  have hsource : Paired source := by
    rcases h.source_cases with ⟨d, rfl⟩ | ⟨rfl, hc⟩
    · exact .pair d .nil
    · exact .single hc .nil
  obtain ⟨more, hmore⟩ := List.head?_eq_some_iff.mp h.head?_decode
  rw [decode_append h.paired, decode_append hsource, hmore]
  exact ⟨more ++ decode rest, rfl⟩

/-- The text of a cell starts with the character that it starts with on its line. -/
theorem head?_trim (h : StartsWith piece lead source c) :
    (trim (decode piece)).head? = some c := by
  obtain ⟨more, hmore⟩ := h.decode_eq
  rw [hmore, trim_append_cons h.not_blank, trimStart_of_allBlank h.blank]
  rfl

/-- A cell that starts in the given column counts what is meant in front of its text. -/
theorem column_ofCell (h : StartsWith piece lead source c) (start : Nat) :
    (Span.ofCell start (decode piece)).column = start + (decode lead).length := by
  obtain ⟨more, hmore⟩ := h.decode_eq
  have hnot : ¬isBlank c = true := by simp [h.not_blank]
  have hblanks : (decode piece).takeWhile isBlank = decode lead := by
    rw [hmore, List.takeWhile_append_of_pos h.blank, List.takeWhile_cons_of_neg hnot,
      List.append_nil]
  have hlonger : (decode lead).length ≠ (decode piece).length := by
    rw [hmore, List.length_append, List.length_cons]
    omega
  simp only [Span.ofCell, hblanks, if_neg hlonger]

end StartsWith

/-- A text that means more than blanks starts with a character that is not blank. -/
theorem exists_startsWith {piece : List Char} (hpiece : Paired piece)
    (h : ¬AllBlank (decode piece)) :
    ∃ lead source c, StartsWith piece lead source c := by
  induction hpiece with
  | nil => exact absurd (fun c hc => absurd hc List.not_mem_nil) h
  | @pair c cs _ ih =>
      rcases value_escaped_cases c with ⟨rfl, hvalue⟩ | ⟨d, more, hvalue, hd, -⟩
      · have hbreak : AllBlank (decode ['\\', 'n']) := List.forall_mem_singleton.mpr rfl
        obtain ⟨lead, source, c, hstarts⟩ :=
          ih fun hcs => h (allBlank_append hbreak hcs)
        exact ⟨_, source, c, hstarts.behind (.pair 'n' .nil) hbreak⟩
      · refine ⟨[], ['\\', c], d, .nil, nofun, .inl ⟨c, rfl⟩, ?_, hd, cs, rfl⟩
        rw [decode_pair, hvalue]
        rfl
  | @single c hc cs _ ih =>
      cases hblank : isBlank c with
      | true =>
          have hfirst : AllBlank (decode [c]) := by
            rw [decode_single hc]
            exact List.forall_mem_singleton.mpr hblank
          rw [decode_single hc] at h
          obtain ⟨lead, source, d, hstarts⟩ :=
            ih fun hcs => h (List.forall_mem_cons.mpr ⟨hblank, hcs⟩)
          exact ⟨_, source, d, hstarts.behind (.single hc .nil) hfirst⟩
      | false =>
          refine ⟨[], [c], c, .nil, nofun, .inr ⟨rfl, hc⟩, ?_, hblank, cs, rfl⟩
          rw [decode_single hc]
          rfl

/-! ### Where pieces stand -/

theorem CutAtBars.cellAt {cs last front piece : List Char} {pieces : List (List Char)}
    (h : CutAtBars cs pieces last) (hfront : IsPiece front) {start i column : Nat}
    (hplace : (place (fun _ => 1) start pieces)[i]? = some (column, piece)) :
    ∃ before, CellAt (front ++ '|' :: cs) i before piece ∧
      column + front.length = start + before.length := by
  induction h generalizing front start i with
  | last hbars => cases hplace
  | @closed first cs last pieces hfirst hrest ih =>
      rw [place] at hplace
      cases i with
      | zero =>
          obtain ⟨rfl, rfl⟩ := Prod.mk.inj (Option.some.inj hplace)
          exact ⟨front, ⟨hfront.paired, hfront.bars_eq_zero, hfirst, cs, rfl⟩, rfl⟩
      | succ i =>
          rw [totalWidth_chars] at hplace
          obtain ⟨before, hcell, hcolumn⟩ := ih hfirst hplace
          obtain ⟨after, hafter⟩ := hcell.exists_after
          refine ⟨front ++ '|' :: before, ⟨?_, ?_, hcell.isPiece, after, ?_⟩, ?_⟩
          · exact hfront.paired.append (.single (by decide) hcell.paired)
          · rw [bars_append hfront.paired, hfront.bars_eq_zero, bars_single (by decide),
              hcell.bars_eq, if_pos rfl]
            omega
          · rw [hafter]
            simp
          · rw [List.length_append, List.length_cons]
            omega

end Text

namespace Span

open Text

/-- A cell without text has the column behind its bar. -/
theorem column_ofCell_of_allBlank {content : List Char} (h : AllBlank content) (start : Nat) :
    (ofCell start content).column = start := by
  have hblanks : content.takeWhile isBlank = content := List.takeWhile_eq_self_iff.mpr h
  simp only [ofCell, hblanks, if_true, Nat.add_zero]

/-- The column of a cell is neither in front of the cell nor behind it. -/
theorem column_ofCell_bounds (start : Nat) (content : List Char) :
    start ≤ (ofCell start content).column ∧
      (ofCell start content).column ≤ start + content.length := by
  have hle : (content.takeWhile isBlank).length ≤ content.length :=
    (List.takeWhile_sublist _).length_le
  simp only [ofCell]
  split <;> omega

end Span

namespace Line

open Text

/-- The cell behind `i` bars of a line, and the piece of the line that it is read from. -/
theorem exists_cellAt {l : Line} {i : Nat} {cell : Span} (h : l.cells[i]? = some cell) :
    ∃ before piece, CellAt l.chars i before piece ∧
      cell = .ofCell (before.length + 2) (decode piece) := by
  obtain ⟨pieces, last, hcut⟩ := exists_cutAtBars l.chars
  rw [cells_of_cut hcut, List.getElem?_map] at h
  obtain ⟨⟨column, piece⟩, hplace, rfl⟩ := Option.map_eq_some_iff.mp h
  generalize hchars : l.chars = cs at hcut ⊢
  cases hcut with
  | last hbars => cases hplace
  | @closed first cs last pieces hfirst hrest =>
      rw [place, totalWidth_chars, List.tail_cons] at hplace
      obtain ⟨before, hcell, hcolumn⟩ := hrest.cellAt hfirst hplace
      have hbehind : column = before.length + 2 := by omega
      exact ⟨before, piece, hcell, by rw [hbehind]⟩

/-- The columns of the cells of a line get greater along the line. -/
theorem pairwise_cells (l : Line) : l.cells.Pairwise fun x y => x.column < y.column := by
  obtain ⟨pieces, last, hcut⟩ := exists_cutAtBars l.chars
  rw [cells_of_cut hcut, List.pairwise_map]
  refine ((pairwise_place (fun _ => 1) 1 pieces).tail).imp ?_
  intro x y hbehind
  rw [totalWidth_chars] at hbehind
  have hx := (Span.column_ofCell_bounds x.1 (decode x.2)).2
  have hy := (Span.column_ofCell_bounds y.1 (decode y.2)).1
  have hle := length_decode_le x.2
  omega

/--
Where the cells of a line stand.  A cell without text has the column right behind the bar
that opens it.  The column of any other cell is that of the character that its text starts
with, or of the backslash of the pair, exactly if all that stands between them and the bar
is blank as it is written; a pair that stands for a line break there counts as one column.
The columns get greater along the line.
-/
theorem columns_of_cells (l : Line) :
    (∀ i cell, l.cells[i]? = some cell →
      ∃ before piece, CellAt l.chars i before piece ∧
        cell.text = String.ofList (trim (decode piece)) ∧
        (cell.text = "" → cell.column = before.length + 2) ∧
        (cell.text ≠ "" → ∃ lead source c, StartsWith piece lead source c ∧
          cell.text.toList.head? = some c ∧
          cell.column = before.length + 2 + (decode lead).length ∧
          (cell.column = before.length + 2 + lead.length ↔ AllBlank lead))) ∧
    l.cells.Pairwise fun x y => x.column < y.column := by
  refine ⟨?_, l.pairwise_cells⟩
  intro i cell hi
  obtain ⟨before, piece, hcell, rfl⟩ := exists_cellAt hi
  have htext : (Span.ofCell (before.length + 2) (decode piece)).text = "" ↔
      AllBlank (decode piece) := by
    rw [← trim_eq_nil_iff]
    exact String.ofList_eq_empty_iff
  refine ⟨before, piece, hcell, rfl, ?_, ?_⟩
  · intro hempty
    exact Span.column_ofCell_of_allBlank (htext.mp hempty) _
  · intro hne
    obtain ⟨lead, source, c, hstarts⟩ :=
      exists_startsWith hcell.isPiece.paired fun hblank => hne (htext.mpr hblank)
    have hcolumn := hstarts.column_ofCell (before.length + 2)
    refine ⟨lead, source, c, hstarts, ?_, hcolumn, ?_⟩
    · rw [Span.ofCell, String.toList_ofList]
      exact hstarts.head?_trim
    · rw [hcolumn, Nat.add_left_cancel_iff]
      exact length_decode_eq_iff hstarts.paired hstarts.blank

/-- The cells of `|\nx| a||`: of the first one the column is that of the letter in its pair. -/
theorem columns_of_cells_behind_break :
    (Line.mk ['|', '\\', 'n', 'x', '|', ' ', 'a', '|', '|']).cells =
      [⟨3, "x"⟩, ⟨7, "a"⟩, ⟨9, ""⟩] ∧
    (∃ before piece lead source c,
      CellAt ['|', '\\', 'n', 'x', '|', ' ', 'a', '|', '|'] 0 before piece ∧
      StartsWith piece lead source c ∧ 3 = before.length + 2 + (decode lead).length ∧
      (3 = before.length + 2 + lead.length ↔ AllBlank lead)) ∧
    (∃ before piece, CellAt ['|', '\\', 'n', 'x', '|', ' ', 'a', '|', '|'] 2 before piece ∧
      9 = before.length + 2) := by
  have hcells : (Line.mk ['|', '\\', 'n', 'x', '|', ' ', 'a', '|', '|']).cells =
      [⟨3, "x"⟩, ⟨7, "a"⟩, ⟨9, ""⟩] := by decide +kernel
  obtain ⟨hcolumns, -⟩ :=
    columns_of_cells ⟨['|', '\\', 'n', 'x', '|', ' ', 'a', '|', '|']⟩
  refine ⟨hcells, ?_, ?_⟩
  · obtain ⟨before, piece, hcell, -, -, htext⟩ := hcolumns 0 ⟨3, "x"⟩ (by rw [hcells]; rfl)
    obtain ⟨lead, source, c, hstarts, -, hcolumn⟩ := htext (by decide)
    exact ⟨before, piece, lead, source, c, hcell, hstarts, hcolumn⟩
  · obtain ⟨before, piece, hcell, -, hempty, -⟩ := hcolumns 2 ⟨9, ""⟩ (by rw [hcells]; rfl)
    exact ⟨before, piece, hcell, hempty rfl⟩

/-- Not every column is that of the character that its cell starts with: in `|\nx|` the letter
stands in column 4. -/
theorem not_every_column_points :
    ¬∀ (l : Line) (i : Nat) (cell : Span) (before piece lead source : List Char) (c : Char),
      l.cells[i]? = some cell → CellAt l.chars i before piece → StartsWith piece lead source c →
        cell.column = before.length + 2 + lead.length := by
  intro h
  have hpiece : IsPiece ['\\', 'n', 'x'] :=
    (IsPiece.pair 'n').append (.single (by decide) (by decide))
  have hcell : CellAt ['|', '\\', 'n', 'x', '|'] 0 [] ['\\', 'n', 'x'] :=
    ⟨.nil, rfl, hpiece, [], rfl⟩
  have hstarts : StartsWith ['\\', 'n', 'x'] ['\\', 'n'] ['x'] 'x' :=
    ⟨.pair 'n' .nil, List.forall_mem_singleton.mpr rfl, .inr ⟨rfl, by decide⟩, rfl, by decide,
      [], rfl⟩
  have hcolumn := h ⟨['|', '\\', 'n', 'x', '|']⟩ 0 ⟨3, "x"⟩ _ _ _ _ _
    (by decide +kernel) hcell hstarts
  exact absurd hcolumn (by decide)

end Line

end Gherkin
