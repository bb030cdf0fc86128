set_option autoImplicit false

/-! # Sets of characters given by ranges

Character classes that the Unicode standard lists by code point are kept as lists of inclusive
ranges. -/

namespace Parsing

/-- A set of code points: inclusive ranges. -/
abbrev CodeRanges := List (Nat × Nat)

namespace CodeRanges

/-- The code point of `c` lies in one of the ranges. -/
def has (ranges : CodeRanges) (c : Char) : Bool :=
  ranges.any fun range => decide (range.1 ≤ c.toNat) && decide (c.toNat ≤ range.2)

end CodeRanges

end Parsing
