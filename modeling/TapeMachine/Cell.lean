/-! # Cells — the numbers on the tape and the characters they print

    A cell holds a signed 32-bit integer whose arithmetic wraps around.
    Printing a cell shows the character with that code point; a number
    that is no code point shows the replacement character. -/

namespace TapeMachine

/-- The number held by one cell of the tape. -/
abbrev Cell := Int32

namespace Cell

/-- The character shown for a number that is no code point. -/
def replacement : Char := '�'

/-- The character a cell prints: the one with its value as code point. -/
def glyph (v : Cell) : Char :=
  if 0 ≤ v.toInt ∧ v.toInt.toNat.isValidChar then Char.ofNat v.toInt.toNat
  else replacement

/-- The value in decimal digits, with a sign when negative. -/
def text (v : Cell) : String := toString v.toInt

end Cell

end TapeMachine
