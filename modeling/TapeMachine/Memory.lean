import TapeMachine.Cell

/-! # Memory — what the machine needs of a tape

    The machine reads and writes the cell under a cursor and moves the
    cursor by one cell.  It asks for nothing else, so any type with
    these four operations can stand in for the tape. -/

namespace TapeMachine

/-- A row of cells with a cursor on one of them. -/
class Memory (M : Type) where
  /-- The value under the cursor. -/
  read : M → Cell
  /-- Overwrite the cell under the cursor. -/
  write : M → Cell → M
  /-- Move the cursor one cell to the left. -/
  left : M → M
  /-- Move the cursor one cell to the right. -/
  right : M → M

end TapeMachine
