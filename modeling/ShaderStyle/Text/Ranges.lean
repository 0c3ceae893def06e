/-!
# Sets of characters

A class of characters is a list of closed ranges of code points, in increasing order. The modules
beside this one hold one class each.
-/

namespace ShaderStyle.Text

/-- Closed ranges of code points. -/
abbrev Ranges := List (Nat × Nat)

namespace Ranges

/-- Whether the code point of `c` lies in one of the ranges. -/
def contains (ranges : Ranges) (c : Char) : Bool :=
  ranges.any fun (low, high) => low ≤ c.toNat && c.toNat ≤ high

end Ranges

end ShaderStyle.Text
