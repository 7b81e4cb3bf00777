/-!
# Character ranges

A class of characters is a list of closed ranges of code points.  `inRanges`
looks a character up, and `rangesInOrder` says that a table is written in
increasing order with gaps between its ranges, so that no range can be merged
with its neighbour.
-/

namespace BuildMatrix.Text

/-- Whether a character's code point lies in one of the closed ranges. -/
def inRanges (ranges : List (Nat × Nat)) (c : Char) : Bool :=
  ranges.any fun r => r.1 ≤ c.toNat && c.toNat ≤ r.2

theorem inRanges_iff {ranges : List (Nat × Nat)} {c : Char} :
    inRanges ranges c = true ↔ ∃ r ∈ ranges, r.1 ≤ c.toNat ∧ c.toNat ≤ r.2 := by
  simp [inRanges]

/-- Whether every range is closed the right way round and ends before the next one starts. -/
def rangesInOrder : List (Nat × Nat) → Bool
  | [] => true
  | [r] => r.1 ≤ r.2
  | r :: s :: rest => r.1 ≤ r.2 && r.2 + 1 < s.1 && rangesInOrder (s :: rest)
termination_by structural rs => rs

/-- The number of code points in ranges that do not overlap. -/
def rangesSize (ranges : List (Nat × Nat)) : Nat :=
  ranges.foldr (fun r size => r.2 + 1 - r.1 + size) 0

end BuildMatrix.Text
