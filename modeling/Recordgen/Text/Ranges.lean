/-! # Sets of characters given by ranges

A character class of Unicode is a short list of closed ranges of code points. `inRanges` decides
membership; the tables themselves stand in the modules named for the classes.
-/

namespace Recordgen.Text

/-- Whether the code point of `c` lies in one of the closed ranges. -/
def inRanges (ranges : List (Nat × Nat)) (c : Char) : Bool :=
  ranges.any fun range => range.1 ≤ c.toNat && c.toNat ≤ range.2

theorem inRanges_eq_true_iff {ranges : List (Nat × Nat)} {c : Char} :
    inRanges ranges c = true ↔ ∃ range ∈ ranges, range.1 ≤ c.toNat ∧ c.toNat ≤ range.2 := by
  simp [inRanges]

end Recordgen.Text
