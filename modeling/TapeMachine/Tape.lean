import TapeMachine.Memory

/-! # Tapes — a row of cells seen from the cursor

    A tape is never empty and never shrinks.  It is kept as the cell
    under the cursor together with the cells on either side, nearest
    first, so that every operation works at the cursor.  Moving past an
    end makes a new zero cell there.

      * `cells` lists the tape from its left end to its right end.
      * `offset` counts the cells left of the cursor. -/

namespace TapeMachine

/-- A non-empty row of cells with a cursor on one of them. -/
structure Tape where
  /-- The cells left of the cursor, nearest first. -/
  before : List Cell
  /-- The cell under the cursor. -/
  cell : Cell
  /-- The cells right of the cursor, nearest first. -/
  after : List Cell
deriving DecidableEq, Repr

namespace Tape

/-- The tape of a single zero cell. -/
def blank : Tape := ⟨[], 0, []⟩

instance : Inhabited Tape := ⟨blank⟩

/-- The tape of the given cells with the cursor on the first; there is
    none without cells. -/
def ofCells? : List Cell → Option Tape
  | [] => none
  | v :: vs => some ⟨[], v, vs⟩

/-! ## Views -/

/-- All cells from left to right. -/
def cells (t : Tape) : List Cell := t.before.reverse ++ t.cell :: t.after

/-- The number of cells left of the cursor. -/
def offset (t : Tape) : Nat := t.before.length

/-- The number of cells. -/
def size (t : Tape) : Nat := t.before.length + (t.after.length + 1)

/-- The cells as text, such as `[0, -6, 12]`. -/
def text (t : Tape) : String :=
  "[" ++ ", ".intercalate (t.cells.map Cell.text) ++ "]"

/-- One line that tells cells, cursor position and cursor value. -/
def summary (t : Tape) : String :=
  "tape: " ++ t.text ++ " (cursor at " ++ toString t.offset ++ ", value "
    ++ t.cell.text ++ ")"

/-! ## Operations -/

/-- Overwrite the cell under the cursor. -/
def set (t : Tape) (v : Cell) : Tape := { t with cell := v }

/-- Add one to the cell under the cursor, wrapping around. -/
def increment (t : Tape) : Tape := t.set (t.cell + 1)

/-- Subtract one from the cell under the cursor, wrapping around. -/
def decrement (t : Tape) : Tape := t.set (t.cell - 1)

/-- Move the cursor right, onto a new zero cell at the right end. -/
def right : Tape → Tape
  | ⟨b, v, []⟩ => ⟨v :: b, 0, []⟩
  | ⟨b, v, w :: a⟩ => ⟨v :: b, w, a⟩

/-- Move the cursor left, onto a new zero cell at the left end. -/
def left : Tape → Tape
  | ⟨[], v, a⟩ => ⟨[], 0, v :: a⟩
  | ⟨w :: b, v, a⟩ => ⟨b, w, v :: a⟩

/-- Shift cells from the left side to the right side, one by one, until
    the cursor is on the first cell. -/
def rewind : List Cell → Cell → List Cell → Tape
  | [], v, a => ⟨[], v, a⟩
  | w :: b, v, a => rewind b w (v :: a)

/-- Shift cells from the right side to the left side, one by one, until
    the cursor is on the last cell. -/
def unwind : List Cell → Cell → List Cell → Tape
  | b, v, [] => ⟨b, v, []⟩
  | b, v, w :: a => unwind (v :: b) w a

/-- Move the cursor to the leftmost cell. -/
def toHead (t : Tape) : Tape := rewind t.before t.cell t.after

/-- Move the cursor to the rightmost cell. -/
def toTail (t : Tape) : Tape := unwind t.before t.cell t.after

instance : Memory Tape := ⟨cell, set, left, right⟩

/-! ## Edits

    The operations as data, for callers that apply a list of them. -/

/-- One operation on a tape. -/
inductive Edit where
  | right
  | left
  | increment
  | decrement
  | toHead
  | toTail
  | set (v : Cell)
deriving DecidableEq, Repr

/-- Carry out one operation. -/
def apply (t : Tape) : Edit → Tape
  | .right => t.right
  | .left => t.left
  | .increment => t.increment
  | .decrement => t.decrement
  | .toHead => t.toHead
  | .toTail => t.toTail
  | .set v => t.set v

/-- Does this operation make a new cell here? -/
def grows (t : Tape) : Edit → Bool
  | .right => t.after.isEmpty
  | .left => t.before.isEmpty
  | _ => false

/-- Repeat an operation, adding the new cells it makes to a count. -/
def repeated (e : Edit) : Nat → Tape → (made : Nat) → Tape × Nat
  | 0, t, made => (t, made)
  | n + 1, t, made =>
      repeated e n (t.apply e) (made + if t.grows e then 1 else 0)

end Tape

end TapeMachine
