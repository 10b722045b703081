/-! # Depth — how far the parts of a pattern are nested

    What has no parts has the depth zero.  Parts put together lie one
    deeper than the whole, but one part alone is the whole. -/

namespace TapeMachine.Text.Pattern

/-- The greatest depth that a pattern may have. -/
def depthLimit : Nat := 250

/-- The depth of a choice between things of given depths. -/
def depthOfChoice (depths : List Nat) : Nat := depths.foldl max 0 + 1

/-- The depth of a sequence of things of given depths. -/
def depthOfSequence : List Nat → Nat
  | [] => 0
  | [depth] => depth
  | depths => depthOfChoice depths

end TapeMachine.Text.Pattern
