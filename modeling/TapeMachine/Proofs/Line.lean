import TapeMachine.Tape

/-! # Lines — a tape as a list with an index

    The plainest picture of a tape is a list of cells and the index of
    the one under the cursor.  It has no sides and no links, and every
    operation can be read off it at once.

      * `Tape.line` reads a tape as a line.
      * `Tape.line_apply`: an operation on the tape is the same operation
        on the line.
      * `Tape.grows_iff`: a tape says that it grows exactly when its line
        gets longer. -/

namespace TapeMachine

/-- A non-empty list of cells with an index inside it. -/
@[ext]
structure Line where
  cells : List Cell
  /-- The index of the cell under the cursor. -/
  index : Nat
  index_lt : index < cells.length
deriving DecidableEq, Repr

namespace Line

/-- The given cells, with the cursor on the first. -/
def start (cells : List Cell) (hne : cells ≠ []) : Line :=
  ⟨cells, 0, List.length_pos_iff.mpr hne⟩

/-- A line is not empty. -/
theorem length_pos (l : Line) : 0 < l.cells.length := Nat.zero_lt_of_lt l.index_lt

/-- The value under the cursor. -/
def value (l : Line) : Cell := l.cells.get ⟨l.index, l.index_lt⟩

/-- Replace the value under the cursor. -/
def set (l : Line) (v : Cell) : Line where
  cells := l.cells.set l.index v
  index := l.index
  index_lt := by
    rw [List.length_set]
    exact l.index_lt

/-- Move the cursor right; behind the last cell comes a new zero cell. -/
def right (l : Line) : Line :=
  if h : l.index + 1 < l.cells.length then ⟨l.cells, l.index + 1, h⟩
  else ⟨l.cells ++ [0], l.index + 1, by
    have := l.index_lt
    rw [List.length_append, List.length_singleton]
    omega⟩

/-- Move the cursor left; before the first cell comes a new zero cell,
    and the cursor stays at the front. -/
def left (l : Line) : Line :=
  if l.index = 0 then ⟨0 :: l.cells, 0, by
    rw [List.length_cons]
    omega⟩
  else ⟨l.cells, l.index - 1, by
    have := l.index_lt
    omega⟩

/-- Carry out one operation.  Counting is modulo `2 ^ 32`, between
    `-2 ^ 31` and `2 ^ 31 - 1`. -/
def apply (l : Line) : Tape.Edit → Line
  | .right => l.right
  | .left => l.left
  | .increment => l.set (Int32.ofInt (l.value.toInt + 1))
  | .decrement => l.set (Int32.ofInt (l.value.toInt - 1))
  | .toHead => ⟨l.cells, 0, l.length_pos⟩
  | .toTail => ⟨l.cells, l.cells.length - 1, Nat.sub_one_lt_of_lt l.length_pos⟩
  | .set v => l.set v

/-- Carry out operations one after another. -/
def applyAll (edits : List Tape.Edit) (l : Line) : Line := edits.foldl apply l

/-- Moving right inside the line. -/
theorem right_inner {l : Line} (h : l.index + 1 < l.cells.length) :
    l.right = ⟨l.cells, l.index + 1, h⟩ := dif_pos h

/-- Moving right at the end of the line. -/
theorem right_end {l : Line} (h : l.index + 1 = l.cells.length) :
    l.right = ⟨l.cells ++ [0], l.index + 1, by
      rw [List.length_append, List.length_singleton]
      omega⟩ := dif_neg (by omega)

/-- Moving left inside the line. -/
theorem left_inner {l : Line} (h : l.index ≠ 0) :
    l.left = ⟨l.cells, l.index - 1, by
      have := l.index_lt
      omega⟩ := if_neg h

/-- Moving left at the front of the line. -/
theorem left_front {l : Line} (h : l.index = 0) :
    l.left = ⟨0 :: l.cells, 0, by
      rw [List.length_cons]
      omega⟩ := if_pos h

/-- Reading the value at the index. -/
theorem getElem?_index (l : Line) : l.cells[l.index]? = some l.value :=
  List.getElem?_eq_getElem l.index_lt

end Line

namespace Tape

/-- The cells of a tape are as many as its sides and its cursor have. -/
theorem length_cells (t : Tape) : t.cells.length = t.before.length + (t.after.length + 1) := by
  rw [cells, List.length_append, List.length_reverse, List.length_cons]

/-- A tape read as a line. -/
def line (t : Tape) : Line where
  cells := t.cells
  index := t.offset
  index_lt := by
    rw [length_cells, offset]
    omega

/-- The value under the cursor is the one at the index. -/
theorem value_line (t : Tape) : t.line.value = t.cell := by
  refine Option.some.inj (t.line.getElem?_index.symm.trans ?_)
  show (t.before.reverse ++ t.cell :: t.after)[t.before.length]? = some t.cell
  rw [List.getElem?_append_right (Nat.le_of_eq List.length_reverse),
    List.length_reverse, Nat.sub_self]
  rfl

/-- Overwriting the cell replaces the value at the index. -/
theorem line_set (t : Tape) (v : Cell) : (t.set v).line = t.line.set v := by
  apply Line.ext
  · show t.before.reverse ++ v :: t.after
      = (t.before.reverse ++ t.cell :: t.after).set t.before.length v
    rw [List.set_append_right _ _ (Nat.le_of_eq List.length_reverse),
      List.length_reverse, Nat.sub_self]
    rfl
  · rfl

/-- Moving right moves the index. -/
theorem line_right (t : Tape) : t.right.line = t.line.right := by
  obtain ⟨before, v, after⟩ := t
  have hlen : (line ⟨before, v, after⟩).cells.length = before.length + (after.length + 1) :=
    length_cells _
  have hidx : (line ⟨before, v, after⟩).index = before.length := rfl
  cases after with
  | nil =>
      rw [List.length_nil] at hlen
      rw [Line.right_end (by omega)]
      apply Line.ext
      · simp [line, right, cells]
      · rfl
  | cons w after =>
      rw [List.length_cons] at hlen
      rw [Line.right_inner (by omega)]
      apply Line.ext
      · simp [line, right, cells]
      · rfl

/-- Moving left moves the index. -/
theorem line_left (t : Tape) : t.left.line = t.line.left := by
  obtain ⟨before, v, after⟩ := t
  cases before with
  | nil => exact (Line.left_front (l := line ⟨[], v, after⟩) rfl).symm
  | cons w before =>
      have hinner : (line ⟨w :: before, v, after⟩).index ≠ 0 := Nat.succ_ne_zero _
      rw [Line.left_inner hinner]
      apply Line.ext
      · simp [line, left, cells]
      · rfl

/-- Rewinding keeps the cells and ends at the front. -/
theorem rewind_eq (before : List Cell) : ∀ (v : Cell) (after : List Cell),
    (rewind before v after).cells = before.reverse ++ v :: after ∧
      (rewind before v after).offset = 0 := by
  induction before with
  | nil => intro v after; exact ⟨rfl, rfl⟩
  | cons w before ih =>
      intro v after
      rw [rewind]
      obtain ⟨hcells, hoffset⟩ := ih w (v :: after)
      refine ⟨?_, hoffset⟩
      rw [hcells, List.reverse_cons, List.append_assoc]
      rfl

/-- Unwinding keeps the cells and ends at the back. -/
theorem unwind_eq (after : List Cell) : ∀ (before : List Cell) (v : Cell),
    (unwind before v after).cells = before.reverse ++ v :: after ∧
      (unwind before v after).offset = before.length + after.length := by
  induction after with
  | nil => intro before v; exact ⟨rfl, rfl⟩
  | cons w after ih =>
      intro before v
      rw [unwind]
      obtain ⟨hcells, hoffset⟩ := ih (v :: before) w
      constructor
      · rw [hcells, List.reverse_cons, List.append_assoc]
        rfl
      · rw [hoffset, List.length_cons, List.length_cons]
        omega

/-- **An operation on a tape is the same operation on its line.** -/
theorem line_apply (t : Tape) (e : Edit) : (t.apply e).line = t.line.apply e := by
  cases e with
  | right => exact t.line_right
  | left => exact t.line_left
  | increment =>
      show (t.set (t.cell + 1)).line = t.line.set (Int32.ofInt (t.line.value.toInt + 1))
      rw [t.value_line, Int32.ofInt_add, Int32.ofInt_toInt]
      exact t.line_set _
  | decrement =>
      show (t.set (t.cell - 1)).line = t.line.set (Int32.ofInt (t.line.value.toInt - 1))
      rw [t.value_line, Int32.ofInt_sub, Int32.ofInt_toInt]
      exact t.line_set _
  | toHead =>
      obtain ⟨hcells, hoffset⟩ := rewind_eq t.before t.cell t.after
      exact Line.ext hcells hoffset
  | toTail =>
      obtain ⟨hcells, hoffset⟩ := unwind_eq t.after t.before t.cell
      refine Line.ext hcells (hoffset.trans ?_)
      show t.before.length + t.after.length = t.cells.length - 1
      rw [length_cells]
      omega
  | set v => exact t.line_set v

/-- The same for operations one after another. -/
theorem line_applyAll (edits : List Edit) : ∀ t : Tape,
    (edits.foldl apply t).line = t.line.applyAll edits := by
  induction edits with
  | nil => intro t; rfl
  | cons e edits ih =>
      intro t
      rw [List.foldl_cons, ih, line_apply]
      rfl

end Tape

/-- A line gets longer exactly when the cursor is moved past an end. -/
theorem Line.longer_iff (l : Line) (e : Tape.Edit) :
    l.cells.length < (l.apply e).cells.length ↔
      (e = .right ∧ l.index + 1 = l.cells.length) ∨ (e = .left ∧ l.index = 0) := by
  have hlt := l.index_lt
  cases e with
  | right =>
      show l.cells.length < l.right.cells.length ↔ _
      unfold right
      split <;> simp <;> omega
  | left =>
      show l.cells.length < l.left.cells.length ↔ _
      unfold left
      split <;> simp_all
  | increment => simp [apply, set]
  | decrement => simp [apply, set]
  | toHead => simp [apply]
  | toTail => simp [apply]
  | set v => simp [apply, set]

/-- A tape says that it grows exactly when its line gets longer. -/
theorem Tape.grows_iff (t : Tape) (e : Edit) :
    t.grows e = true ↔ t.line.cells.length < (t.line.apply e).cells.length := by
  rw [Line.longer_iff]
  have hlen : t.line.cells.length = t.before.length + (t.after.length + 1) := t.length_cells
  have hidx : t.line.index = t.before.length := rfl
  cases e with
  | right =>
      rw [hidx, hlen]
      cases hafter : t.after <;> simp [grows, hafter]
  | left =>
      rw [hidx]
      cases hbefore : t.before <;> simp [grows, hbefore]
  | increment => simp [grows]
  | decrement => simp [grows]
  | toHead => simp [grows]
  | toTail => simp [grows]
  | set v => simp [grows]

end TapeMachine
