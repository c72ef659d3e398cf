import Gherkin.Proofs.Reader.Basic
import Gherkin.Proofs.Text.Encoding

/-!
# Inputs of a parser

A document may come as text, as bytes or as bytes in pieces, and its lines may
end in a line feed or in a carriage return and a line feed.  None of this is
seen behind the scanner, whose tokens are the lines of the text.
-/

namespace Gherkin

/-- The lines of a text that has been cut: each terminated piece without one carriage
return at its end, and the last piece as it is, unless it is empty.  The first line
loses one byte order mark. -/
def plainLines (terminated : List (List Char)) (last : List Char) : List (List Char) :=
  (terminated.map dropReturn ++ if last.isEmpty then [] else [last]).modifyHead
    (Scanner.dropMark 1)

/-- The token behind `n` others in a text of the given lines. -/
def plainToken (lines : List (List Char)) (n : Nat) : Token :=
  match lines[n]? with
  | some chars => .ofLine ⟨chars⟩ (n + 1)
  | none => .eof (lines.length + 1)

namespace Scanner

/-- The scanner behind a number of reads. -/
def skip : Nat → Scanner → Scanner
  | 0, s => s
  | n + 1, s => skip n s.read.2

theorem read_skip_end (line n : Nat) :
    ((Scanner.mk [] line).skip n).read.1 = .ok (.eof (line + 1)) := by
  induction n with
  | zero => rfl
  | succ n ih => exact ih

/-- What is read behind `n` other reads. -/
theorem read_skip (lines : List (List Char)) (line n : Nat) :
    ((Scanner.mk (.ofLines lines) line).skip n).read.1 =
      .ok (match lines[n]? with
        | some chars => .ofLine ⟨dropMark (line + n + 1) chars⟩ (line + n + 1)
        | none => .eof (line + lines.length + 1)) := by
  induction lines generalizing line n with
  | nil => exact read_skip_end line n
  | cons chars lines ih =>
      cases n with
      | zero => rfl
      | succ n =>
          have hread := ih (line + 1) n
          rw [Nat.add_right_comm line 1 n, Nat.add_right_comm line 1 lines.length] at hread
          exact hread

/-- Only the first line can lose a byte order mark. -/
theorem dropMark_of_ne_one {number : Nat} (h : number ≠ 1) (cs : List Char) :
    dropMark number cs = cs := by
  cases cs with
  | nil => rfl
  | cons c cs => exact if_neg (by simp [h])

/-- The tokens of a scanner are the lines of its text, and then the end of the source. -/
theorem read_skip_ofText {s : String} {terminated : List (List Char)} {last : List Char}
    (h : CutInto s.toList terminated last) (n : Nat) :
    ((Scanner.mk (.ofText s) 0).skip n).read.1 =
      .ok (plainToken (plainLines terminated last) n) := by
  rw [Source.ofText, textLines_of_cutInto h, plainLines]
  generalize (terminated.map dropReturn ++ if last.isEmpty then [] else [last]) = lines
  have hread := read_skip lines 0 n
  simp only [Nat.zero_add] at hread
  rw [plainToken, List.length_modifyHead]
  refine hread.trans (congrArg Except.ok ?_)
  cases lines with
  | nil => rfl
  | cons chars lines =>
      cases n with
      | zero => rfl
      | succ n =>
          simp only [List.modifyHead_cons, List.getElem?_cons_succ]
          cases lines[n]? with
          | none => rfl
          | some chars =>
              exact congrArg (fun cs => Token.ofLine ⟨cs⟩ (n + 1 + 1))
                (dropMark_of_ne_one (by omega) chars)

end Scanner

/-! ### Line ends -/

/-- The text with a carriage return in front of every line feed. -/
def withReturns (s : String) : String :=
  String.ofList (s.toList.flatMap fun c => if c = '\n' then ['\r', '\n'] else [c])

/-- Carriage returns at the ends of lines do not belong to the lines. -/
theorem textLines_withReturns {s : String} (h : '\r' ∉ s.toList) :
    textLines (withReturns s).toList = textLines s.toList := by
  obtain ⟨terminated, last, hcut⟩ := exists_cutInto s.toList
  have hsame {cs : List Char} (hcs : '\n' ∉ cs) :
      (cs.flatMap fun c => if c = '\n' then ['\r', '\n'] else [c]) = cs := by
    induction cs with
    | nil => rfl
    | cons c cs ih =>
        obtain ⟨hc, hcs⟩ := not_or.mp (List.mem_cons.not.mp hcs)
        rw [List.flatMap_cons, if_neg (Ne.symm hc), ih hcs, List.singleton_append]
  have hpieces : ∀ piece ∈ terminated, '\r' ∉ piece := by
    intro piece hpiece hmem
    rw [hcut.join] at h
    exact h (List.mem_append_left _ (List.mem_flatMap.mpr
      ⟨piece, hpiece, List.mem_append_left _ hmem⟩))
  have hcut' : CutInto (withReturns s).toList (terminated.map (· ++ ['\r'])) last := by
    refine ⟨?_, hcut.break_not_mem_last, ?_⟩
    · intro piece hpiece
      obtain ⟨piece, hmem, rfl⟩ := List.mem_map.mp hpiece
      simpa using hcut.break_not_mem piece hmem
    · rw [withReturns, String.toList_ofList, hcut.join, List.flatMap_append,
        hsame hcut.break_not_mem_last, List.flatMap_map, List.flatMap_assoc]
      refine congrArg (· ++ last) (List.flatMap_congr fun piece hpiece => ?_)
      rw [List.flatMap_append, hsame (hcut.break_not_mem piece hpiece), List.append_assoc]
      rfl
  rw [textLines_of_cutInto hcut', textLines_of_cutInto hcut, List.map_map]
  refine congrArg (· ++ _) (List.map_congr_left fun piece hpiece => ?_)
  exact (dropReturn_concat piece).trans (dropReturn_eq_self (hpieces piece hpiece)).symm

/-- A last line may end in a line feed or not. -/
theorem textLines_append_break {cs : List Char} (h : '\r' ∉ cs) (hne : cs ≠ [])
    (hlast : cs.getLast? ≠ some '\n') : textLines (cs ++ ['\n']) = textLines cs := by
  obtain ⟨terminated, last, hcut⟩ := exists_cutInto cs
  have hopen : last ≠ [] := by
    rintro rfl
    rw [hcut.join, List.append_nil] at hne hlast
    rcases List.eq_nil_or_concat terminated with rfl | ⟨pieces, piece, rfl⟩
    · exact hne rfl
    · apply hlast
      rw [List.concat_eq_append, List.flatMap_append, List.flatMap_singleton, ← List.append_assoc,
        List.getLast?_concat]
  have hreturn : '\r' ∉ last := by
    rw [hcut.join] at h
    exact fun hmem => h (List.mem_append_right _ hmem)
  have hcut' : CutInto (cs ++ ['\n']) (terminated ++ [last]) [] := by
    refine ⟨?_, List.not_mem_nil, ?_⟩
    · intro piece hpiece
      rcases List.mem_append.mp hpiece with hpiece | hpiece
      · exact hcut.break_not_mem piece hpiece
      · rw [List.mem_singleton.mp hpiece]
        exact hcut.break_not_mem_last
    · rw [hcut.join, List.flatMap_append, List.flatMap_singleton, List.append_nil,
        List.append_assoc]
  rw [textLines_of_cutInto hcut', textLines_of_cutInto hcut, List.map_append, List.map_singleton,
    dropReturn_eq_self hreturn]
  simp [hopen]

namespace Parser

/-- All inputs agree.  Bytes in pieces are read as one piece, the bytes of a text as the
text.  The tokens of a text are its lines, numbered from one, and then the end of the
source, as often as it is read.  Without carriage returns in the text, its lines may as
well end in a carriage return and a line feed, and the last one in a line feed. -/
theorem inputs_agree (p : Parser) :
    (∀ chunks : List (List UInt8),
      p.parsePieces (chunks.map .bytes) = p.parseBytes chunks.flatten) ∧
    (∀ s : String, p.parseBytes s.toUTF8.data.toList = p.parseText s) ∧
    (∀ s : String, (∃ terminated last, CutInto s.toList terminated last) ∧
      ∀ terminated last, CutInto s.toList terminated last →
        ∀ n, ((Scanner.mk (.ofText s) 0).skip n).read.1 =
          .ok (plainToken (plainLines terminated last) n)) ∧
    ∀ s : String, '\r' ∉ s.toList →
      p.parseText (withReturns s) = p.parseText s ∧
      (s ≠ "" → s.toList.getLast? ≠ some '\n' → p.parseText (s ++ "\n") = p.parseText s) := by
  refine ⟨fun chunks => ?_, fun s => ?_, fun s => ?_, fun s hreturn => ⟨?_, fun hne hlast => ?_⟩⟩
  · rw [parsePieces, parseBytes, Source.ofPieces_bytes]
  · rw [parseBytes, parseText, toList_toUTF8, Source.ofBytes_utf8, Source.ofText]
  · exact ⟨exists_cutInto s.toList, fun _ _ hcut => Scanner.read_skip_ofText hcut⟩
  · rw [parseText, parseText, Source.ofText, Source.ofText, textLines_withReturns hreturn]
  · have hnil : s.toList ≠ [] := by simpa using hne
    rw [parseText, parseText, Source.ofText, Source.ofText, String.toList_append]
    exact congrArg (fun lines => p.parse (lines.map .line))
      (textLines_append_break hreturn hnil hlast)

/-- A text with a byte order mark and without a line feed at its end, whose bytes come in
pieces that cut the mark in two. -/
theorem inputs_agree_marked :
    let s := "\uFEFFFeature: f\n\nScenario: s"
    let chunks : List (List UInt8) := [[0xEF], [0xBB, 0xBF] ++ utf8 "Feature: f".toList,
      [10], [10] ++ utf8 "Scenario: s".toList]
    parsePieces {} (chunks.map .bytes) = parseText {} s ∧
      parseText {} (withReturns s) = parseText {} s ∧ parseText {} (s ++ "\n") = parseText {} s ∧
      ((Scanner.mk (.ofText s) 0).skip 0).read.1 = .ok (.ofLine (.ofString "Feature: f") 1) ∧
      ((Scanner.mk (.ofText s) 0).skip 5).read.1 = .ok (.eof 4) := by
  intro s chunks
  obtain ⟨hpieces, hbytes, htokens, hends⟩ := inputs_agree {}
  obtain ⟨hreturns, hbreak⟩ := hends s (by decide)
  have hchunks : chunks.flatten = s.toUTF8.data.toList := by decide +kernel
  have hcut : CutInto s.toList ["\uFEFFFeature: f".toList, []] "Scenario: s".toList :=
    ⟨by decide, by decide, by decide⟩
  have hread := (htokens s).2 _ _ hcut
  refine ⟨?_, hreturns, hbreak (by decide) (by decide), hread 0, hread 5⟩
  rw [hpieces, hchunks]
  exact hbytes s

end Parser
end Gherkin
