/-!
# Hexadecimal digits

A digit below sixteen as a character, in lower case, and the value of such a
character in either case.
-/

namespace BuildMatrix.Text

/-- The character for a digit below sixteen. -/
def hexDigit (n : Nat) : Char := if n < 10 then Char.ofNat (48 + n) else Char.ofNat (87 + n)

/-- The value of a hexadecimal digit. -/
def hexValue? (c : Char) : Option Nat :=
  if '0' ≤ c ∧ c ≤ '9' then some (c.toNat - 48)
  else if 'a' ≤ c ∧ c ≤ 'f' then some (c.toNat - 87)
  else if 'A' ≤ c ∧ c ≤ 'F' then some (c.toNat - 55)
  else none

/-- The number that digits spell in a base; none if one of them is no digit. -/
def digitsValue? (base : Nat) (digits : List Char) : Option Nat :=
  digits.foldlM (fun n c => (hexValue? c).map (n * base + ·)) 0

/-- A digit is read back as its value. -/
theorem hexValue?_hexDigit (n : Nat) (h : n < 16) : hexValue? (hexDigit n) = some n := by
  have every : ∀ m : Fin 16, hexValue? (hexDigit m) = some m.val := by decide
  exact every ⟨n, h⟩

example : digitsValue? 16 ['1', 'F'] = some 31 ∧ digitsValue? 16 ['g'] = none := by decide

end BuildMatrix.Text
