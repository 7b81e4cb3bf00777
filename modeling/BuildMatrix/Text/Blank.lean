import BuildMatrix.Text.Range

/-!
# Blanks

A *blank* is a character with the Unicode property White_Space.  There are
twenty-five of them, in ten ranges.  The standard library's `Char.isWhitespace`
knows four of them; `isBlank_of_isWhitespace` says that every one of those is a
blank here too.
-/

namespace BuildMatrix.Text

/-- The closed ranges of code points with the property White_Space, in increasing order. -/
def blankRanges : List (Nat × Nat) :=
  [(0x9, 0xD), (0x20, 0x20), (0x85, 0x85), (0xA0, 0xA0), (0x1680, 0x1680), (0x2000, 0x200A),
   (0x2028, 0x2029), (0x202F, 0x202F), (0x205F, 0x205F), (0x3000, 0x3000)]

/-- Whether a character is white space. -/
def isBlank (c : Char) : Bool := inRanges blankRanges c

/-- Every white-space character of the standard library is a blank. -/
theorem isBlank_of_isWhitespace {c : Char} (h : c.isWhitespace = true) : isBlank c = true := by
  simp only [Char.isWhitespace, Bool.or_eq_true, decide_eq_true_eq] at h
  rcases h with ((rfl | rfl) | rfl) | rfl <;> decide

example : rangesInOrder blankRanges ∧ rangesSize blankRanges = 25 := by decide

example : isBlank '\u3000' ∧ isBlank '\x0b' ∧ isBlank '\u200b' = false := by decide

end BuildMatrix.Text
