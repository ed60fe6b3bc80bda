/-!
# Ranges of code points

A class of characters is given by its inclusive ranges of code points. Membership is a linear
search, which evaluates inside proofs as well as it runs.
-/

namespace Typings.Text

/-- A character belongs to a table when its code point lies between the ends of some range. -/
def inRanges (ranges : List (Nat × Nat)) (c : Char) : Bool :=
  ranges.any fun r => r.1 ≤ c.toNat && c.toNat ≤ r.2

/-- Membership names the range that holds the code point. -/
theorem inRanges_iff {ranges : List (Nat × Nat)} {c : Char} :
    inRanges ranges c = true ↔ ∃ r ∈ ranges, r.1 ≤ c.toNat ∧ c.toNat ≤ r.2 := by
  simp [inRanges]

end Typings.Text
