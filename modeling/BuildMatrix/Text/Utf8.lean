/-!
# Reading bytes as text

Files hold bytes and the library works on text.  `ofBytes` reads any bytes: what
is not UTF-8 becomes U+FFFD, one for each *maximal broken part*.  A broken part
is a byte that starts no character, or the longest run of bytes that starts a
character and is then broken off, by the end of the bytes or by a byte that
cannot follow.  The byte that breaks it off is read again on its own.

A lead byte says how many bytes follow it and limits the first of them, so that
overlong forms, surrogates and numbers above U+10FFFF are broken from their
second byte on (`leadOf?`).  `follow` reads what follows and returns what is
left; the rest is never longer (`length_follow_le`), which bounds `ofByteList`.

Strict reading is the standard library's `String.fromUTF8?`.
-/

namespace BuildMatrix.Text

/-! ## Lead bytes -/

/-- What a lead byte promises. -/
structure Lead where
  /-- The bits of the character that the lead byte carries. -/
  bits : Nat
  /-- The number of bytes that follow. -/
  more : Nat
  /-- The least byte allowed right after the lead byte. -/
  least : Nat
  /-- The greatest byte allowed right after the lead byte. -/
  greatest : Nat

/-- The promise of a byte that starts a character of two or more bytes. -/
def leadOf? (b : Nat) : Option Lead :=
  if b < 0xC2 then none
  else if b ≤ 0xDF then some ⟨b - 0xC0, 1, 0x80, 0xBF⟩
  else if b = 0xE0 then some ⟨0, 2, 0xA0, 0xBF⟩
  else if b = 0xED then some ⟨0xD, 2, 0x80, 0x9F⟩
  else if b ≤ 0xEF then some ⟨b - 0xE0, 2, 0x80, 0xBF⟩
  else if b = 0xF0 then some ⟨0, 3, 0x90, 0xBF⟩
  else if b ≤ 0xF3 then some ⟨b - 0xF0, 3, 0x80, 0xBF⟩
  else if b = 0xF4 then some ⟨4, 3, 0x80, 0x8F⟩
  else none

/-! ## Reading -/

/-- Read `more` further bytes of a character whose bits so far are `bits`, the first of them
between `least` and `greatest`.  Returns the code point, or none when broken off, and the rest. -/
def follow : (more : Nat) → (least greatest bits : Nat) → List UInt8 → Option Nat × List UInt8
  | 0, _, _, bits, rest => (some bits, rest)
  | _ + 1, _, _, _, [] => (none, [])
  | more + 1, least, greatest, bits, b :: rest =>
      if least ≤ b.toNat ∧ b.toNat ≤ greatest then
        follow more 0x80 0xBF (bits * 64 + (b.toNat - 0x80)) rest
      else (none, b :: rest)

theorem length_follow_le (more least greatest bits : Nat) (bytes : List UInt8) :
    (follow more least greatest bits bytes).2.length ≤ bytes.length := by
  fun_induction follow more least greatest bits bytes with
  | case1 => simp
  | case2 => simp
  | case3 _ _ _ _ _ _ _ ih => simp only [List.length_cons]; omega
  | case4 => simp

/-- The mark that stands for a broken part. -/
def replacement : Char := '\uFFFD'

/-- Read a character that does not fit in one byte: the character, or the mark for a broken part,
and the rest. -/
def readLong (b : UInt8) (rest : List UInt8) : Char × List UInt8 :=
  match leadOf? b.toNat with
  | none => (replacement, rest)
  | some lead =>
      let read := follow lead.more lead.least lead.greatest lead.bits rest
      (read.1.elim replacement Char.ofNat, read.2)

theorem length_readLong_le (b : UInt8) (rest : List UInt8) :
    (readLong b rest).2.length ≤ rest.length := by
  unfold readLong
  split
  · exact Nat.le_refl _
  · exact length_follow_le ..

/-- The text of a list of bytes, with a mark for each broken part. -/
def ofByteList : List UInt8 → List Char
  | [] => []
  | b :: rest =>
      if b.toNat < 0x80 then Char.ofNat b.toNat :: ofByteList rest
      else (readLong b rest).1 :: ofByteList (readLong b rest).2
termination_by bytes => bytes.length
decreasing_by
  · simp
  · simp only [List.length_cons]; exact Nat.lt_succ_of_le (length_readLong_le b rest)

/-- The text of a file's bytes, with a mark for each broken part. -/
def ofBytes (bytes : ByteArray) : String := String.ofList (ofByteList bytes.toList)

/-! ## Tests -/

example : ofByteList [0x61, 0xC3, 0xA9, 0x62] = ['a', 'é', 'b'] := by
  simp [ofByteList, readLong, leadOf?, follow]

example : ofByteList [0xF0, 0x9F, 0x98, 0x41] = [replacement, 'A'] := by
  simp [ofByteList, readLong, leadOf?, follow]

end BuildMatrix.Text
