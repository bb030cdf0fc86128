import Parsing.Text.CodeRanges

set_option autoImplicit false

/-! # White space

The `White_Space` property of Unicode. -/

namespace Parsing

/-- The ranges of `White_Space`, in order. -/
def blankRanges : CodeRanges :=
  [(0x9, 0xd), (0x20, 0x20), (0x85, 0x85), (0xa0, 0xa0), (0x1680, 0x1680), (0x2000, 0x200a),
   (0x2028, 0x2029), (0x202f, 0x202f), (0x205f, 0x205f), (0x3000, 0x3000)]

/-- `c` is white space. -/
def isBlank (c : Char) : Bool := blankRanges.has c

end Parsing
