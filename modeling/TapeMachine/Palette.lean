import TapeMachine.Text.Blank
import TapeMachine.Text.Numeral

/-! # Palettes — a colour for every command

    A colour is given by its red, green and blue parts, written as a
    number sign and three pairs of hexadecimal digits, or by one of
    sixteen names in any case.  The first digit of a pair may be a plus
    sign. -/

namespace TapeMachine

open Text

/-- The colours with names. -/
inductive ColourName where
  | black
  | red
  | green
  | yellow
  | blue
  | magenta
  | purple
  | cyan
  | white
  | lightGray
  | darkGray
  | lightRed
  | lightGreen
  | lightBlue
  | lightMagenta
  | lightCyan
deriving DecidableEq, Repr

/-- A colour of the terminal. -/
inductive Colour where
  | named (name : ColourName)
  | rgb (red green blue : UInt8)
deriving DecidableEq, Repr

namespace ColourName

/-- The colour with a name in small letters. -/
def ofText? (name : String) : Option ColourName :=
  match name with
  | "black" => some .black
  | "red" => some .red
  | "green" => some .green
  | "yellow" => some .yellow
  | "blue" => some .blue
  | "magenta" => some .magenta
  | "purple" => some .purple
  | "cyan" => some .cyan
  | "white" => some .white
  | "gray" | "grey" => some .lightGray
  | "darkgray" | "dark_gray" | "darkgrey" | "dark_grey" => some .darkGray
  | "lightred" | "light_red" => some .lightRed
  | "lightgreen" | "light_green" => some .lightGreen
  | "lightblue" | "light_blue" => some .lightBlue
  | "lightmagenta" | "light_magenta" => some .lightMagenta
  | "lightcyan" | "light_cyan" => some .lightCyan
  | _ => none

end ColourName

namespace Colour

/-- One part of a colour from its two characters. -/
def part? (a b : Char) : Option UInt8 :=
  (unsigned? 16 hexDigit? [a, b]).map UInt8.ofNat

/-- The colour written after a number sign. -/
def ofHex? : List Char → Option Colour
  | [a, b, c, d, e, f] =>
      match part? a b, part? c d, part? e f with
      | some red, some green, some blue => some (.rgb red green blue)
      | _, _, _ => none
  | _ => none

/-- Read a colour, blanks around it aside. -/
def ofText? (text : String) : Option Colour :=
  match trimmed text.toList with
  | '#' :: hex => ofHex? hex
  | name => (ColourName.ofText? (lower (String.ofList name))).map .named

end Colour

/-- The colours of the commands and of the comments. -/
structure Palette where
  moveRight : Colour := .rgb 137 220 235
  moveLeft : Colour := .rgb 148 226 213
  increment : Colour := .rgb 166 227 161
  decrement : Colour := .rgb 243 139 168
  output : Colour := .rgb 249 226 175
  loop : Colour := .rgb 203 166 247
  comment : Colour := .rgb 108 112 134
deriving DecidableEq, Repr

namespace Palette

/-- The palette with the given colours by name in place of its own.  A
    name that is no command and a colour that cannot be read change
    nothing. -/
def withColours (p : Palette) (colours : List (String × String)) : Palette :=
  let pick (key : String) (usual : Colour) : Colour :=
    ((colours.lookup key).bind Colour.ofText?).getD usual
  { moveRight := pick "move_right" p.moveRight
    moveLeft := pick "move_left" p.moveLeft
    increment := pick "increment" p.increment
    decrement := pick "decrement" p.decrement
    output := pick "output" p.output
    loop := pick "loop" p.loop
    comment := pick "comment" p.comment }

end Palette

end TapeMachine
