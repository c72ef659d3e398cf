import Gherkin.Proofs.Text.Splitting

/-!
# Texts in bytes

No character but the line feed has the byte of a line feed in its encoding, so
the bytes of a text fall into lines where the text does.  Where one piece of the
bytes ends and the next begins is not seen.
-/

namespace Gherkin

/-- The bytes of a text in UTF-8. -/
def utf8 (cs : List Char) : List UInt8 :=
  cs.flatMap String.utf8EncodeChar

theorem utf8_append (cs cs' : List Char) : utf8 (cs ++ cs') = utf8 cs ++ utf8 cs' :=
  List.flatMap_append

theorem toList_toUTF8 (s : String) : s.toUTF8.data.toList = utf8 s.toList := by
  have hencode : s.toUTF8 = s.toList.utf8Encode := String.utf8Encode_toList.symm
  rw [hencode, List.utf8Encode, List.toList_data_toByteArray, utf8]

/-- A character is encoded as itself, or as bytes that are no ASCII characters. -/
theorem toNat_of_mem_utf8EncodeChar {c : Char} {b : UInt8} (h : b ∈ String.utf8EncodeChar c) :
    b.toNat = c.toNat ∨ 128 ≤ b.toNat := by
  have hc : c.val.toNat = c.toNat := rfl
  have hbyte {n : Nat} (hn : 128 ≤ n) (hn' : n < 256) : 128 ≤ (UInt8.ofNat n).toNat := by
    rwa [UInt8.toNat_ofNat_of_lt' hn']
  rw [String.utf8EncodeChar] at h
  split at h
  · left
    rw [List.mem_singleton.mp h, UInt8.toNat_ofNat_of_lt' (by rw [UInt8.size]; omega), hc]
  · right
    revert b
    split
    · simp only [List.forall_mem_cons]
      exact ⟨hbyte (by omega) (by omega), hbyte (by omega) (by omega), nofun⟩
    · split
      · simp only [List.forall_mem_cons]
        exact ⟨hbyte (by omega) (by omega), hbyte (by omega) (by omega),
          hbyte (by omega) (by omega), nofun⟩
      · simp only [List.forall_mem_cons]
        exact ⟨hbyte (by omega) (by omega), hbyte (by omega) (by omega),
          hbyte (by omega) (by omega), hbyte (by omega) (by omega), nofun⟩

theorem lineFeed_not_mem_utf8 {cs : List Char} (h : '\n' ∉ cs) : 10 ∉ utf8 cs := by
  intro hmem
  obtain ⟨c, hc, hbyte⟩ := List.mem_flatMap.mp hmem
  rcases toNat_of_mem_utf8EncodeChar hbyte with hascii | hother
  · obtain rfl : c = '\n' := Char.toNat_inj.mp hascii.symm
    exact h hc
  · exact absurd hother (by decide)

/-- The bytes of a line are decoded to the line. -/
theorem LineRead.ofBytes_utf8 (cs : List Char) (terminated : Bool) :
    ofBytes (utf8 cs) terminated = .line (if terminated then dropReturn cs else cs) := by
  have hbytes : (utf8 cs).toByteArray = (String.ofList cs).toByteArray :=
    String.toByteArray_ofList.symm
  have hvalid : String.fromUTF8? (utf8 cs).toByteArray = some (String.ofList cs) := by
    rw [String.fromUTF8?, dif_pos (hbytes ▸ (String.ofList cs).isValidUTF8)]
    exact congrArg some (String.toByteArray_inj.mp hbytes)
  rw [ofBytes, hvalid]
  simp only [String.toList_ofList]

namespace Source

/-- Bytes without a line feed wait for the rest of their line. -/
theorem ofItems_append {bytes : List UInt8} (h : 10 ∉ bytes) (taken : List UInt8)
    (items : List Item) :
    ofItems taken (bytes.map .byte ++ items) = ofItems (bytes.reverse ++ taken) items := by
  induction bytes generalizing taken with
  | nil => rfl
  | cons b bytes ih =>
      obtain ⟨hb, hbytes⟩ := not_or.mp (List.mem_cons.not.mp h)
      rw [List.map_cons, List.cons_append, ofItems, if_neg (Ne.symm hb), ih hbytes,
        List.reverse_cons, List.append_assoc, List.singleton_append]

/-- Pieces of bytes are read as one piece. -/
theorem ofPieces_bytes (chunks : List (List UInt8)) :
    ofPieces (chunks.map .bytes) = ofBytes chunks.flatten := by
  have hitems : (chunks.map Piece.bytes).flatMap Piece.items = chunks.flatten.map .byte := by
    rw [List.flatMap_map, List.map_flatten, List.flatMap_def]
    rfl
  rw [ofBytes, ofPieces, ofPieces, hitems]
  simp only [List.flatMap_cons, List.flatMap_nil, List.append_nil, Piece.items]

/-- The bytes of a text are read as the text. -/
theorem ofBytes_utf8 (cs : List Char) : ofBytes (utf8 cs) = (textLines cs).map .line := by
  obtain ⟨terminated, last, hcut⟩ := exists_cutInto cs
  rw [textLines_of_cutInto hcut]
  obtain ⟨hpieces, hlast, rfl⟩ := hcut
  have hitems (cs : List Char) : ofBytes (utf8 cs) = ofItems [] ((utf8 cs).map .byte) := by
    simp only [ofBytes, ofPieces, List.flatMap_cons, List.flatMap_nil, List.append_nil,
      Piece.items]
  rw [hitems]
  induction terminated with
  | nil =>
      have hread := ofItems_append (lineFeed_not_mem_utf8 hlast) [] []
      rw [List.append_nil, List.append_nil] at hread
      rw [List.flatMap_nil, List.nil_append, hread, ofItems, List.reverse_reverse,
        LineRead.ofBytes_utf8]
      cases last with
      | nil => rfl
      | cons c cs =>
          have hne : (utf8 (c :: cs)).reverse.isEmpty = false := by
            have hc : String.utf8EncodeChar c ≠ [] := by
              apply List.ne_nil_of_length_pos
              rw [String.length_utf8EncodeChar]
              exact Char.utf8Size_pos c
            simp [utf8, hc]
          rw [hne]
          rfl
  | cons piece pieces ih =>
      obtain ⟨hpiece, hpieces⟩ := List.forall_mem_cons.mp hpieces
      have hfeed : utf8 ['\n'] = [10] := rfl
      rw [List.flatMap_cons, List.append_assoc, utf8_append, utf8_append, hfeed, List.map_append,
        List.map_append, List.append_assoc, ofItems_append (lineFeed_not_mem_utf8 hpiece)]
      have hline : ofItems ((utf8 piece).reverse ++ []) ([10].map Item.byte ++
          (utf8 (pieces.flatMap (fun piece => piece ++ ['\n']) ++ last)).map Item.byte) =
          .ofBytes (utf8 piece) true :: ofItems []
            ((utf8 (pieces.flatMap (fun piece => piece ++ ['\n']) ++ last)).map Item.byte) := by
        rw [List.append_nil, List.map_singleton, List.singleton_append, ofItems, if_pos rfl,
          List.reverse_reverse]
      rw [hline, LineRead.ofBytes_utf8, ih hpieces]
      rfl

end Source
end Gherkin
