import BuildMatrix.Json

/-!
# Reading what was quoted

A text that is written as a string literal is read as the same text, whatever
characters it holds, and reading stops after the closing quote
(`literal_quoted`).  Character by character, what `quoteChar` writes is read as one
code unit, and code units of characters are no surrogates.
-/

namespace BuildMatrix.Json

open Text (hexDigit hexValue? hexValue?_hexDigit)

/-! ## Code units -/

/-- A text as it stands between the quotes of a literal. -/
def quoted (text : List Char) : List Char := text.flatMap quoteChar

theorem toList_quote (text : String) :
    (quote text).toList = '"' :: (quoted text.toList ++ ['"']) := by
  rw [quote, String.toList_ofList]
  rfl

theorem units_escaped {c d : Char} (hu : c ≠ 'u') (h : escaped? c = some d) (rest : List Char) :
    units ('\\' :: c :: rest) = (units rest).map fun read => (d.toNat :: read.1, read.2) := by
  rw [units.eq_4 c rest fun _ _ _ _ _ hc _ => hu hc, h]
  cases units rest with
  | none => rfl
  | some read => rfl

theorem units_control {n : Nat} (h : n < 0x20) (rest : List Char) :
    units ('\\' :: 'u' :: '0' :: '0' :: hexDigit (n / 16) :: hexDigit (n % 16) :: rest) =
      (units rest).map fun read => (n :: read.1, read.2) := by
  have hzero : hexValue? '0' = some 0 := by decide
  have hvalue : ((0 * 16 + 0) * 16 + n / 16) * 16 + n % 16 = n := by omega
  rw [units.eq_3, hzero, hexValue?_hexDigit _ (by omega), hexValue?_hexDigit _ (by omega)]
  cases units rest with
  | none => rfl
  | some read =>
    show some ((((0 * 16 + 0) * 16 + n / 16) * 16 + n % 16) :: read.1, read.2) = _
    rw [hvalue]
    rfl

theorem units_plain {c : Char} (hquote : c ≠ '"') (hback : c ≠ '\\') (h : ¬ c.toNat < 0x20)
    (rest : List Char) :
    units (c :: rest) = (units rest).map fun read => (c.toNat :: read.1, read.2) := by
  rw [units.eq_5 c rest hquote (fun _ _ _ _ _ hc _ => hback hc) fun _ _ hc _ => hback hc,
    if_neg (not_or.2 ⟨h, hback⟩)]
  cases units rest with
  | none => rfl
  | some read => rfl

/-- What is written for a character is read as its code unit. -/
theorem units_quoteChar (c : Char) (rest : List Char) :
    units (quoteChar c ++ rest) = (units rest).map fun read => (c.toNat :: read.1, read.2) := by
  unfold quoteChar
  by_cases hquote : c = '"'
  · rw [if_pos hquote, hquote]
    exact units_escaped (by decide) (by decide) rest
  rw [if_neg hquote]
  by_cases hback : c = '\\'
  · rw [if_pos hback, hback]
    exact units_escaped (by decide) (by decide) rest
  rw [if_neg hback]
  by_cases h8 : c = '\x08'
  · rw [if_pos h8, h8]
    exact units_escaped (by decide) (by decide) rest
  rw [if_neg h8]
  by_cases h9 : c = '\t'
  · rw [if_pos h9, h9]
    exact units_escaped (by decide) (by decide) rest
  rw [if_neg h9]
  by_cases h10 : c = '\n'
  · rw [if_pos h10, h10]
    exact units_escaped (by decide) (by decide) rest
  rw [if_neg h10]
  by_cases h12 : c = '\x0c'
  · rw [if_pos h12, h12]
    exact units_escaped (by decide) (by decide) rest
  rw [if_neg h12]
  by_cases h13 : c = '\r'
  · rw [if_pos h13, h13]
    exact units_escaped (by decide) (by decide) rest
  rw [if_neg h13]
  by_cases hlow : c.toNat < 0x20
  · rw [if_pos hlow]
    exact units_control hlow rest
  · rw [if_neg hlow]
    exact units_plain hquote hback hlow rest

/-- A quoted text is read as its code units, up to the closing quote. -/
theorem units_quoted (text rest : List Char) :
    units (quoted text ++ '"' :: rest) = some (text.map Char.toNat, rest) := by
  induction text with
  | nil => rfl
  | cons c text ih =>
    show units ((quoteChar c ++ quoted text) ++ '"' :: rest) = _
    rw [List.append_assoc, units_quoteChar, ih]
    rfl

/-! ## Characters -/

theorem chars?_cons {c : Char} (rest : List Nat) :
    chars? (c.toNat :: rest) = (chars? rest).map (c :: ·) := by
  have hvalid : c.toNat < 0xD800 ∨ 0xDFFF < c.toNat ∧ c.toNat < 0x110000 := c.valid
  have hhigh : ¬ (0xD800 ≤ c.toNat ∧ c.toNat < 0xDC00) := by omega
  have hlow : ¬ (0xDC00 ≤ c.toNat ∧ c.toNat < 0xE000) := by omega
  cases rest with
  | nil => rw [chars?.eq_3, if_neg hhigh, if_neg hlow, Char.ofNat_toNat]
  | cons u rest => rw [chars?.eq_2, if_neg hhigh, if_neg hlow, Char.ofNat_toNat]

theorem chars?_toNat (text : List Char) : chars? (text.map Char.toNat) = some text := by
  induction text with
  | nil => rfl
  | cons c text ih =>
    rw [List.map_cons, chars?_cons, ih]
    rfl

/-- What is quoted is read as it was. -/
theorem literal_quoted (text : String) (rest : List Char) :
    literal (quoted text.toList ++ '"' :: rest) = some (some text, rest) := by
  rw [literal, units_quoted]
  show some ((chars? (text.toList.map Char.toNat)).map String.ofList, rest) = _
  rw [chars?_toNat, Option.map_some, String.ofList_toList]

end BuildMatrix.Json
