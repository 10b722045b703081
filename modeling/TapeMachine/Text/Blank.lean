/-! # Blanks — the white space of Unicode and trimming

    A blank is a character with the Unicode property White_Space: the
    five control characters from tab to carriage return, the space, and
    nineteen others. -/

namespace TapeMachine.Text

/-- Has this character the property White_Space? -/
def isBlank (c : Char) : Bool :=
  let n := c.toNat
  (0x09 ≤ n && n ≤ 0x0D) || n == 0x20 || n == 0x85 || n == 0xA0
    || n == 0x1680 || (0x2000 ≤ n && n ≤ 0x200A) || n == 0x2028
    || n == 0x2029 || n == 0x202F || n == 0x205F || n == 0x3000

/-- Drop the blanks at both ends of a list of characters. -/
def trimmed (cs : List Char) : List Char :=
  ((cs.dropWhile isBlank).reverse.dropWhile isBlank).reverse

/-- Drop the blanks at both ends of a text. -/
def trim (s : String) : String := String.ofList (trimmed s.toList)

/-- Does a text hold nothing but blanks? -/
def allBlank (s : String) : Bool := s.toList.all isBlank

/-- ASCII capitals made small; other characters stay. -/
def lower (s : String) : String := String.ofList (s.toList.map Char.toLower)

end TapeMachine.Text
