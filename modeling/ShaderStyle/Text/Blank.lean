import ShaderStyle.Text.Ranges

/-! # Blank characters

The characters that count as white space in comments and settings: the ASCII controls from tab to
carriage return and from U+001C to U+001F, the space, and the separators of the other blocks. -/

namespace ShaderStyle.Text

/-- The blank characters, as ranges of code points. -/
def blankRanges : Ranges :=
  [
    (0x9, 0xd), (0x1c, 0x20), (0x85, 0x85), (0xa0, 0xa0), (0x1680, 0x1680),
    (0x2000, 0x200a), (0x2028, 0x2029), (0x202f, 0x202f), (0x205f, 0x205f), (0x3000, 0x3000)
  ]

/-- Whether `c` is white space. -/
def isBlank (c : Char) : Bool :=
  blankRanges.contains c

end ShaderStyle.Text
