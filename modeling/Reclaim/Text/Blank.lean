import Reclaim.Text.Ranges

/-!
# White space

`isBlank` holds of the characters with the Unicode property White_Space, which are more than the
four of `Char.isWhitespace`.
-/

namespace Reclaim.Text

/-- The ranges of white space: controls, blanks of several widths, and line separators. -/
def blankRanges : Ranges :=
  [(0x9, 0xD), (0x20, 0x20), (0x85, 0x85), (0xA0, 0xA0), (0x1680, 0x1680), (0x2000, 0x200A),
   (0x2028, 0x2029), (0x202F, 0x202F), (0x205F, 0x205F), (0x3000, 0x3000)]

/-- Whether `c` is white space. -/
def isBlank (c : Char) : Bool := blankRanges.has c

example : " \t\n\x0b\u00a0\u3000".toList.all isBlank = true := by decide
example : "\u200b\ufeff\u180e".toList.any isBlank = false := by decide

end Reclaim.Text
