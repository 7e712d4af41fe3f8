/-
# Whitespace

The code points with the Unicode property White_Space (Unicode 17.0): tabs and
line breaks, the space, and the wider and narrower spaces of other scripts.
-/

import ContextLexer.Unicode.Ranges

namespace ContextLexer.Unicode

/-- The maximal runs of code points with White_Space, in ascending order. -/
def whiteSpace : Ranges :=
  [(0x9, 0xD), (0x20, 0x20), (0x85, 0x85), (0xA0, 0xA0), (0x1680, 0x1680),
   (0x2000, 0x200A), (0x2028, 0x2029), (0x202F, 0x202F), (0x205F, 0x205F),
   (0x3000, 0x3000)]

end ContextLexer.Unicode
