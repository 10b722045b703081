/-! # Ranges — sets of code points

    A property of characters is given as a table of ranges of code
    points, in ascending order, both ends included. -/

namespace TapeMachine.Text

/-- Does a number lie in one of the ranges? -/
def inRanges (ranges : Array (Nat × Nat)) (n : Nat) : Bool :=
  ranges.any fun (low, high) => low ≤ n && n ≤ high

end TapeMachine.Text
