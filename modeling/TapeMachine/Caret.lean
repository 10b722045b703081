import TapeMachine.Text.Blank

/-! # Carets — pointing at a character of the code

    A position in the code is shown as a window of the code around it
    and, below, a caret under the character meant.  Blanks of every kind
    are shown as spaces, so that the two lines stay aligned. -/

namespace TapeMachine.Caret

open Text

/-- How many characters are shown on either side of the one meant. -/
def reach : Nat := 32

/-- A character as shown in the window. -/
def shown (c : Char) : Char := if isBlank c then ' ' else c

/-- The position of the first character in the window. -/
def first (position : Nat) : Nat := position - reach

/-- The window of the code around a position. -/
def window (code : List Char) (position : Nat) : List Char :=
  let stop := min (position + reach + 1) code.length
  ((code.drop (first position)).take (stop - first position)).map shown

/-- The line with the caret. -/
def mark (position : Nat) : List Char :=
  List.replicate (position - first position) ' ' ++ ['^']

/-- A message about a position, with the window and the caret, each line
    with its newline. -/
def report (message : String) (code : String) (position : Nat) : String :=
  message ++ " at instruction " ++ toString position ++ "\n"
    ++ "  " ++ String.ofList (window code.toList position) ++ "\n"
    ++ "  " ++ String.ofList (mark position) ++ "\n"

end TapeMachine.Caret
