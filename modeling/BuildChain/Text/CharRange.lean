import BuildChain.Text.Basic

/-! # Classes of characters

A class is given by the ranges of its code points, each with its first and last member.
-/

namespace BuildChain.Text

def inRanges (ranges : List (Nat × Nat)) (c : CodePoint) : Bool :=
  ranges.any fun r => decide (r.1 ≤ c.toNat) && decide (c.toNat ≤ r.2)

end BuildChain.Text
