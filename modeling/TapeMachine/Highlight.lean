import TapeMachine.Palette

/-! # Highlighting — the styles of a line

    Every character of a line has a style: the colour of its command, in
    bold, or the colour of comments.  Neighbours of equal style are
    shown together. -/

namespace TapeMachine

/-- How a character is shown. -/
structure Style where
  colour : Colour
  bold : Bool
deriving DecidableEq, Repr

/-- The style of a character. -/
def Palette.style (p : Palette) (c : Char) : Style :=
  if c = '>' then ⟨p.moveRight, true⟩
  else if c = '<' then ⟨p.moveLeft, true⟩
  else if c = '+' then ⟨p.increment, true⟩
  else if c = '-' then ⟨p.decrement, true⟩
  else if c = '.' then ⟨p.output, true⟩
  else if c = '[' ∨ c = ']' then ⟨p.loop, true⟩
  else ⟨p.comment, false⟩

/-- Characters of one style that stand together. -/
structure Stretch where
  style : Style
  text : List Char
deriving DecidableEq, Repr

namespace Stretch

/-- Put a character in front of stretches, into the first one if the
    styles are equal. -/
def cons (style : Char → Style) (c : Char) : List Stretch → List Stretch
  | [] => [⟨style c, [c]⟩]
  | s :: rest =>
      if s.style = style c then ⟨s.style, c :: s.text⟩ :: rest
      else ⟨style c, [c]⟩ :: s :: rest

end Stretch

/-- The stretches of a line. -/
def highlight (p : Palette) (line : List Char) : List Stretch :=
  line.foldr (Stretch.cons p.style) []

end TapeMachine
