import BuildMatrix.Text.Utf8

/-!
# Reading what was written

Every text is read again from its UTF-8 bytes (`ofBytes_toUTF8`), so a mark stands only
for bytes that are not UTF-8, or for itself.

A character has one byte, or a lead byte and up to three others.  In each case the lead
byte promises what follows.  The limits that it sets for the next byte are kept because
the number of the character is long enough for its bytes, is not that of a surrogate, and
is not above U+10FFFF.
-/

namespace BuildMatrix.Text

/-! ## Characters -/

/-- A byte that is in the limits adds six bits. -/
theorem follow_succ {more least greatest bits n : Nat} {rest : List UInt8}
    (hleast : least ≤ n + 0x80) (hgreatest : n + 0x80 ≤ greatest) (hn : n < 64) :
    follow (more + 1) least greatest bits (UInt8.ofNat (n + 0x80) :: rest) =
      follow more 0x80 0xBF (bits * 64 + n) rest := by
  have hbyte : (UInt8.ofNat (n + 0x80)).toNat = n + 0x80 :=
    UInt8.toNat_ofNat_of_lt' (by omega : n + 0x80 < 256)
  rw [follow, hbyte, if_pos ⟨hleast, hgreatest⟩, Nat.add_sub_cancel]

/-- A character is read if its lead byte promises it and its other bytes follow. -/
theorem readLong_of_follow {b v : Nat} {lead : Lead} {bytes rest : List UInt8} (hb : b < 256)
    (hlead : leadOf? b = some lead)
    (hfollow : follow lead.more lead.least lead.greatest lead.bits bytes = (some v, rest)) :
    readLong (UInt8.ofNat b) bytes = (Char.ofNat v, rest) := by
  have hbyte : (UInt8.ofNat b).toNat = b := UInt8.toNat_ofNat_of_lt' hb
  rw [readLong, hbyte, hlead]
  dsimp only
  rw [hfollow]
  rfl

theorem readLong_two {v : Nat} (h : 0x80 ≤ v) (h' : v ≤ 0x7FF) (rest : List UInt8) :
    readLong (UInt8.ofNat (v / 64 % 32 + 0xC0)) (UInt8.ofNat (v % 64 + 0x80) :: rest) =
      (Char.ofNat v, rest) := by
  have hlead : leadOf? (v / 64 % 32 + 0xC0) = some ⟨v / 64, 1, 0x80, 0xBF⟩ := by
    rw [leadOf?, if_neg (by omega), if_pos (by omega), Nat.add_sub_cancel,
      show v / 64 % 32 = v / 64 by omega]
  refine readLong_of_follow (by omega) hlead ?_
  show follow 1 0x80 0xBF (v / 64) _ = _
  rw [follow_succ (by omega) (by omega) (by omega), follow,
    show v / 64 * 64 + v % 64 = v by omega]

theorem leadOf?_three {v : Nat} (h : 0x800 ≤ v) (h' : v ≤ 0xFFFF) (valid : v < 0xD800 ∨ 0xDFFF < v) :
    ∃ least greatest, leadOf? (v / 4096 % 16 + 0xE0) = some ⟨v / 4096, 2, least, greatest⟩ ∧
      least ≤ v / 64 % 64 + 0x80 ∧ v / 64 % 64 + 0x80 ≤ greatest := by
  rw [leadOf?, if_neg (by omega), if_neg (by omega)]
  split
  · exact ⟨0xA0, 0xBF, by rw [show v / 4096 = 0 by omega], by omega, by omega⟩
  split
  · exact ⟨0x80, 0x9F, by rw [show v / 4096 = 0xD by omega], by omega, by omega⟩
  · rw [if_pos (by omega), Nat.add_sub_cancel, show v / 4096 % 16 = v / 4096 by omega]
    exact ⟨0x80, 0xBF, rfl, by omega, by omega⟩

theorem readLong_three {v : Nat} (h : 0x800 ≤ v) (h' : v ≤ 0xFFFF)
    (valid : v < 0xD800 ∨ 0xDFFF < v) (rest : List UInt8) :
    readLong (UInt8.ofNat (v / 4096 % 16 + 0xE0))
        (UInt8.ofNat (v / 64 % 64 + 0x80) :: UInt8.ofNat (v % 64 + 0x80) :: rest) =
      (Char.ofNat v, rest) := by
  obtain ⟨least, greatest, hlead, hleast, hgreatest⟩ := leadOf?_three h h' valid
  refine readLong_of_follow (by omega) hlead ?_
  show follow 2 least greatest (v / 4096) _ = _
  rw [follow_succ hleast hgreatest (by omega), follow_succ (by omega) (by omega) (by omega), follow,
    show (v / 4096 * 64 + v / 64 % 64) * 64 + v % 64 = v by omega]

theorem leadOf?_four {v : Nat} (h : 0x10000 ≤ v) (h' : v ≤ 0x10FFFF) :
    ∃ least greatest, leadOf? (v / 262144 % 8 + 0xF0) = some ⟨v / 262144, 3, least, greatest⟩ ∧
      least ≤ v / 4096 % 64 + 0x80 ∧ v / 4096 % 64 + 0x80 ≤ greatest := by
  rw [leadOf?, if_neg (by omega), if_neg (by omega), if_neg (by omega), if_neg (by omega),
    if_neg (by omega)]
  split
  · exact ⟨0x90, 0xBF, by rw [show v / 262144 = 0 by omega], by omega, by omega⟩
  split
  · rw [Nat.add_sub_cancel, show v / 262144 % 8 = v / 262144 by omega]
    exact ⟨0x80, 0xBF, rfl, by omega, by omega⟩
  · rw [if_pos (by omega)]
    exact ⟨0x80, 0x8F, by rw [show v / 262144 = 4 by omega], by omega, by omega⟩

theorem readLong_four {v : Nat} (h : 0x10000 ≤ v) (h' : v ≤ 0x10FFFF) (rest : List UInt8) :
    readLong (UInt8.ofNat (v / 262144 % 8 + 0xF0))
        (UInt8.ofNat (v / 4096 % 64 + 0x80) :: UInt8.ofNat (v / 64 % 64 + 0x80) ::
          UInt8.ofNat (v % 64 + 0x80) :: rest) =
      (Char.ofNat v, rest) := by
  obtain ⟨least, greatest, hlead, hleast, hgreatest⟩ := leadOf?_four h h'
  refine readLong_of_follow (by omega) hlead ?_
  show follow 3 least greatest (v / 262144) _ = _
  rw [follow_succ hleast hgreatest (by omega), follow_succ (by omega) (by omega) (by omega),
    follow_succ (by omega) (by omega) (by omega), follow,
    show ((v / 262144 * 64 + v / 4096 % 64) * 64 + v / 64 % 64) * 64 + v % 64 = v by omega]

/-! ## Texts -/

/-- The bytes of a character are read as this character. -/
theorem ofByteList_utf8EncodeChar (c : Char) (rest : List UInt8) :
    ofByteList (String.utf8EncodeChar c ++ rest) = c :: ofByteList rest := by
  have hc : Char.ofNat c.val.toNat = c := Char.ofNat_toNat c
  have valid : c.val.toNat < 0xD800 ∨ 0xDFFF < c.val.toNat ∧ c.val.toNat < 0x110000 := c.valid
  have long : ∀ {b : Nat} {bytes : List UInt8}, 0x80 ≤ b → b < 256 →
      readLong (UInt8.ofNat b) bytes = (Char.ofNat c.val.toNat, rest) →
        ofByteList (UInt8.ofNat b :: bytes) = c :: ofByteList rest := by
    intro b bytes hb hb' hread
    have hbyte : (UInt8.ofNat b).toNat = b := UInt8.toNat_ofNat_of_lt' hb'
    rw [ofByteList, if_neg (by omega), hread, hc]
  unfold String.utf8EncodeChar
  dsimp only
  split
  · next h =>
    have hbyte : (UInt8.ofNat c.val.toNat).toNat = c.val.toNat :=
      UInt8.toNat_ofNat_of_lt' (by omega : c.val.toNat < 256)
    rw [List.singleton_append, ofByteList, if_pos (by omega), hbyte, hc]
  split
  · exact long (by omega) (by omega) (readLong_two (by omega) (by omega) rest)
  split
  · exact long (by omega) (by omega) (readLong_three (by omega) (by omega) (by omega) rest)
  · exact long (by omega) (by omega) (readLong_four (by omega) (by omega) rest)

theorem ofByteList_flatMap_utf8EncodeChar (chars : List Char) :
    ofByteList (chars.flatMap String.utf8EncodeChar) = chars := by
  induction chars with
  | nil => rw [List.flatMap_nil, ofByteList]
  | cons c chars ih => rw [List.flatMap_cons, ofByteList_utf8EncodeChar, ih]

theorem toList_loop (bytes : ByteArray) (i : Nat) (read : List UInt8) :
    ByteArray.toList.loop bytes i read = read.reverse ++ bytes.data.toList.drop i := by
  fun_induction ByteArray.toList.loop bytes i read with
  | case1 i read h ih =>
    have hi : i < bytes.data.toList.length := by simpa using h
    have hbyte : bytes.get! i = bytes.data.toList[i] := getElem!_pos bytes.data i h
    rw [ih, List.drop_eq_getElem_cons hi, List.reverse_cons, List.append_assoc, List.singleton_append,
      hbyte]
  | case2 i read h =>
    rw [List.drop_of_length_le (by simpa using h), List.append_nil]

theorem toList_eq_data (bytes : ByteArray) : bytes.toList = bytes.data.toList := by
  rw [ByteArray.toList, toList_loop]
  rfl

/-- A text is read again from its bytes. -/
theorem ofBytes_toUTF8 (text : String) : ofBytes text.toUTF8 = text := by
  have hbytes : text.toUTF8 = text.toList.utf8Encode := by
    rw [String.toUTF8_eq_toByteArray, ← String.toByteArray_ofList, String.ofList_toList]
  have hlist : text.toUTF8.toList = text.toList.flatMap String.utf8EncodeChar := by
    rw [hbytes, toList_eq_data]
    exact List.toList_data_toByteArray
  rw [ofBytes, hlist, ofByteList_flatMap_utf8EncodeChar, String.ofList_toList]

end BuildMatrix.Text
