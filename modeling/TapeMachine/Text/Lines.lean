/-! # Lines — cutting a text at its line ends

    A line ends at a newline or at a carriage return followed by a
    newline; neither belongs to it.  A newline at the very end of the
    text starts no further line, and a carriage return without a newline
    after it is an ordinary character. -/

namespace TapeMachine.Text

/-- Drop one carriage return from the end of a reversed line. -/
def chomp : List Char → List Char
  | '\r' :: line => line
  | line => line

/-- The lines of a text that continues the reversed line `line`. -/
def linesFrom (line : List Char) : List Char → List (List Char)
  | [] => if line.isEmpty then [] else [line.reverse]
  | c :: rest =>
      if c = '\n' then (chomp line).reverse :: linesFrom [] rest
      else linesFrom (c :: line) rest

/-- The lines of a text, without their ends. -/
def lines (text : String) : List String :=
  (linesFrom [] text.toList).map String.ofList

end TapeMachine.Text
