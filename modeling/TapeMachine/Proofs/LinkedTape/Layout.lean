import TapeMachine.LinkedTape
import TapeMachine.Proofs.Line
import Mathlib.Data.List.Nodup

/-! # Layouts — what the links of a linked tape say

    The store of a linked tape is in no particular order.  What holds it
    together is a path: the places of the cells from left to right.  A
    store is laid out along a path for a line if the node at each step of
    the path holds the cell of that step and the places of the steps
    before and after it.

      * `laid_ofCells`: a new tape is laid out in the order of its store.
      * `Laid.apply`: every operation has a result, and the result is
        laid out for the line after the same operation.  The path grows
        at its ends by the place of the new node.
      * `Laid.applyAll`: so has every sequence of operations. -/

namespace TapeMachine

namespace LinkedTape

/-- The step of a path before the given one. -/
def stepBefore (path : List Nat) : Nat → Option Nat
  | 0 => none
  | k + 1 => path[k]?

/-- A step of a path keeps the step before it when the path gets longer. -/
theorem stepBefore_append {path : List Nat} {k : Nat} (hk : k ≤ path.length) (more : List Nat) :
    stepBefore (path ++ more) k = stepBefore path k := by
  cases k with
  | zero => rfl
  | succ k => exact List.getElem?_append_left hk

/-- The store is laid out along a path for a line. -/
structure Laid (l : LinkedTape) (path : List Nat) (line : Line) : Prop where
  /-- No place is passed twice. -/
  nodup : path.Nodup
  /-- Every place of the store is passed. -/
  mem : ∀ i, i ∈ path ↔ i < l.nodes.size
  /-- The path is as long as the store. -/
  size : path.length = l.nodes.size
  /-- The line is as long as the path. -/
  length : line.cells.length = path.length
  /-- Each node holds its cell and the places before and after it. -/
  node : ∀ k i, path[k]? = some i → ∃ v, line.cells[k]? = some v ∧
    l.nodes[i]? = some (Node.mk v (stepBefore path k) path[k + 1]?)
  /-- The path begins at the head. -/
  head : path[0]? = some l.head
  /-- The cursor is where the index says. -/
  cursor : path[line.index]? = some l.cursor
  /-- The offset is the index. -/
  offset : l.offset = line.index

namespace Laid

variable {l : LinkedTape} {path : List Nat} {line : Line}

/-- A place is at one step of the path only. -/
theorem step_unique (h : l.Laid path line) {j k i : Nat} (hj : path[j]? = some i)
    (hk : path[k]? = some i) : j = k := by
  have hlt : j < path.length := (List.getElem?_eq_some_iff.mp hj).1
  exact (List.getElem?_inj hlt h.nodup).mp (hj.trans hk.symm)

/-- A place on the path is in the store. -/
theorem lt_of_step (h : l.Laid path line) {k i : Nat} (hk : path[k]? = some i) :
    i < l.nodes.size :=
  (h.mem i).mp (List.mem_of_getElem? hk)

/-- The cursor is at no step but the one of the index. -/
theorem cursor_iff (h : l.Laid path line) {k i : Nat} (hk : path[k]? = some i) :
    i = l.cursor ↔ k = line.index := by
  constructor
  · rintro rfl
    exact h.step_unique hk h.cursor
  · rintro rfl
    exact Option.some.inj (hk.symm.trans h.cursor)

/-- At the end of the line there is no next step. -/
theorem step_after_end (h : l.Laid path line) (hend : line.index + 1 = line.cells.length) :
    path[line.index + 1]? = none :=
  List.getElem?_eq_none (Nat.le_of_eq (hend.trans h.length).symm)

/-- The node under the cursor. -/
theorem current (h : l.Laid path line) :
    l.nodes[l.cursor]?
      = some (Node.mk line.value (stepBefore path line.index) path[line.index + 1]?) := by
  obtain ⟨v, hv, hnode⟩ := h.node line.index l.cursor h.cursor
  have hvalue : v = line.value := Option.some.inj (hv.symm.trans line.getElem?_index)
  rw [← hvalue]
  exact hnode

/-- The cursor is in the store. -/
theorem cursor_lt (h : l.Laid path line) : l.cursor < l.nodes.size := h.lt_of_step h.cursor

/-! ## Operations at the cursor -/

/-- Changing the value under the cursor replaces it in the line. -/
theorem change (h : l.Laid path line) (f : Cell → Cell) :
    ∃ l', l.change? f = some l' ∧ l'.Laid path (line.set (f line.value)) := by
  let node : Node := ⟨f line.value, stepBefore path line.index, path[line.index + 1]?⟩
  refine ⟨{ l with nodes := l.nodes.set! l.cursor node }, ?_, ?_⟩
  · rw [change?, h.current]
    rfl
  have hsize : (l.nodes.set! l.cursor node).size = l.nodes.size := by simp
  refine ⟨h.nodup, ?_, h.size.trans hsize.symm, ?_, ?_, h.head, h.cursor, h.offset⟩
  · intro i
    rw [hsize]
    exact h.mem i
  · rw [Line.set, List.length_set]
    exact h.length
  · intro k i hk
    by_cases hi : i = l.cursor
    · -- the changed node
      obtain rfl := (h.cursor_iff hk).mp hi
      refine ⟨f line.value, ?_, ?_⟩
      · rw [Line.set, List.getElem?_set_self line.index_lt]
      · rw [hi, Array.set!_eq_setIfInBounds,
          Array.getElem?_setIfInBounds_self_of_lt h.cursor_lt]
    · -- any other node
      obtain ⟨v, hv, hnode⟩ := h.node k i hk
      have hkidx : k ≠ line.index := mt (h.cursor_iff hk).mpr hi
      refine ⟨v, ?_, ?_⟩
      · rw [Line.set, List.getElem?_set_ne (Ne.symm hkidx)]
        exact hv
      · rw [Array.set!_eq_setIfInBounds, Array.getElem?_setIfInBounds_ne (Ne.symm hi)]
        exact hnode

/-- Moving the cursor along the path changes nothing else. -/
theorem moveTo (h : l.Laid path line) {k i : Nat} (hlt : k < line.cells.length)
    (hk : path[k]? = some i) :
    ({ l with cursor := i, offset := k } : LinkedTape).Laid path ⟨line.cells, k, hlt⟩ :=
  ⟨h.nodup, h.mem, h.size, h.length, h.node, h.head, hk, rfl⟩

/-! ## Growth -/

/-- A store with a new node at its end and a changed node in it. -/
theorem getElem?_grown {nodes : Array Node} {c : Nat} (hc : c < nodes.size) (new node : Node)
    (i : Nat) :
    ((nodes.push new).set! c node)[i]?
      = if i = c then some node else if i = nodes.size then some new else nodes[i]? := by
  have hc' : c < (nodes.push new).size := by
    rw [Array.size_push]
    omega
  by_cases hi : i = c
  · rw [if_pos hi, hi, Array.set!_eq_setIfInBounds,
      Array.getElem?_setIfInBounds_self_of_lt hc']
  · rw [if_neg hi, Array.set!_eq_setIfInBounds, Array.getElem?_setIfInBounds_ne (Ne.symm hi),
      Array.getElem?_push]

/-- A store with a new node is one longer. -/
theorem size_grown (nodes : Array Node) (c : Nat) (new node : Node) :
    ((nodes.push new).set! c node).size = nodes.size + 1 := by
  rw [Array.set!_eq_setIfInBounds, Array.size_setIfInBounds, Array.size_push]

/-- The place of a new node is not on the path yet. -/
theorem fresh (h : l.Laid path line) : l.nodes.size ∉ path :=
  fun hmem => Nat.lt_irrefl _ ((h.mem _).mp hmem)

/-- Moving right past the end puts the new node at the end of the path. -/
theorem growRight (h : l.Laid path line) (hend : line.index + 1 = line.cells.length) :
    ({ nodes := (l.nodes.push ⟨0, some l.cursor, none⟩).set! l.cursor
          ⟨line.value, stepBefore path line.index, some l.nodes.size⟩
       head := l.head
       cursor := l.nodes.size
       offset := l.offset + 1 } : LinkedTape).Laid (path ++ [l.nodes.size]) line.right := by
  have hlen : path.length = line.index + 1 := h.length.symm.trans hend.symm
  have hlast : (path ++ [l.nodes.size])[line.index + 1]? = some l.nodes.size := by
    rw [← hlen, List.getElem?_concat_length]
  rw [Line.right_end hend]
  refine ⟨?_, ?_, ?_, ?_, ?_, ?_, hlast, congrArg (· + 1) h.offset⟩
  · exact List.nodup_append.mpr ⟨h.nodup, List.nodup_singleton _, fun a ha b hb heq =>
      h.fresh (List.mem_singleton.mp hb ▸ heq ▸ ha)⟩
  · intro i
    rw [size_grown, List.mem_append, List.mem_singleton, h.mem]
    omega
  · rw [size_grown, List.length_append, List.length_singleton, h.size]
  · rw [List.length_append, List.length_append, h.length]
    rfl
  · intro k i hk
    rw [getElem?_grown h.cursor_lt]
    by_cases hlt : k < path.length
    · -- a node that was there before; only the last one gets a new link
      rw [List.getElem?_append_left hlt] at hk
      rw [stepBefore_append (Nat.le_of_lt hlt), List.getElem?_append_left (h.length ▸ hlt)]
      by_cases hi : i = l.cursor
      · obtain rfl := (h.cursor_iff hk).mp hi
        refine ⟨line.value, line.getElem?_index, ?_⟩
        rw [if_pos hi, hlast]
      · have hkidx : k ≠ line.index := mt (h.cursor_iff hk).mpr hi
        obtain ⟨v, hv, hnode⟩ := h.node k i hk
        refine ⟨v, hv, ?_⟩
        rw [if_neg hi, if_neg (Nat.ne_of_lt (h.lt_of_step hk)),
          List.getElem?_append_left (by omega)]
        exact hnode
    · -- the new node
      have hbound := (List.getElem?_eq_some_iff.mp hk).1
      rw [List.length_append, List.length_singleton] at hbound
      obtain rfl : k = line.index + 1 := by omega
      obtain rfl : l.nodes.size = i := Option.some.inj (hlast.symm.trans hk)
      refine ⟨0, ?_, ?_⟩
      · show (line.cells ++ [0])[line.index + 1]? = some 0
        rw [hend, List.getElem?_concat_length]
      · rw [if_neg (Nat.ne_of_gt h.cursor_lt), if_pos rfl,
          stepBefore_append (Nat.le_of_eq hlen.symm),
          List.getElem?_eq_none (by rw [List.length_append, List.length_singleton]; omega)]
        exact congrArg (fun before => some (Node.mk 0 before none)) h.cursor.symm
  · rw [List.getElem?_append_left (by omega)]
    exact h.head

/-- Moving left past the front puts the new node at the front of the path. -/
theorem growLeft (h : l.Laid path line) (hfront : line.index = 0) :
    ({ nodes := (l.nodes.push ⟨0, none, some l.cursor⟩).set! l.cursor
          ⟨line.value, some l.nodes.size, path[line.index + 1]?⟩
       head := l.nodes.size
       cursor := l.nodes.size
       offset := l.offset } : LinkedTape).Laid (l.nodes.size :: path) line.left := by
  have hcursor : path[0]? = some l.cursor := hfront ▸ h.cursor
  rw [Line.left_front hfront]
  refine ⟨List.nodup_cons.mpr ⟨h.fresh, h.nodup⟩, ?_, ?_, ?_, ?_, rfl, rfl,
    h.offset.trans hfront⟩
  · intro i
    rw [size_grown, List.mem_cons, h.mem]
    omega
  · rw [size_grown, List.length_cons, h.size]
  · rw [List.length_cons, List.length_cons, h.length]
  · intro k i hk
    rw [getElem?_grown h.cursor_lt]
    cases k with
    | zero =>
        -- the new node
        obtain rfl : l.nodes.size = i := Option.some.inj hk
        refine ⟨0, rfl, ?_⟩
        rw [if_neg (Nat.ne_of_gt h.cursor_lt), if_pos rfl]
        exact congrArg (fun after => some (Node.mk 0 none after)) hcursor.symm
    | succ k =>
        -- a node that was there before; only the first one gets a new link
        by_cases hi : i = l.cursor
        · obtain rfl := (h.cursor_iff hk).mp hi
          refine ⟨line.value, line.getElem?_index, ?_⟩
          rw [if_pos hi, hfront]
          rfl
        · obtain ⟨v, hv, hnode⟩ := h.node k i hk
          refine ⟨v, hv, ?_⟩
          rw [if_neg hi, if_neg (Nat.ne_of_lt (h.lt_of_step hk)), hnode]
          cases k with
          | zero => exact absurd ((h.cursor_iff hk).mpr hfront.symm) hi
          | succ k => rfl

/-! ## Every operation -/

/-- Moving right. -/
theorem right (h : l.Laid path line) : ∃ l' path',
    l.right? = some (l', decide (line.index + 1 = line.cells.length)) ∧
      l'.Laid path' line.right := by
  unfold right?
  rw [h.current]
  by_cases hend : line.index + 1 = line.cells.length
  · refine ⟨_, _, ?_, h.growRight hend⟩
    rw [h.step_after_end hend, decide_eq_true hend]
  · have hinner := Nat.lt_of_le_of_ne line.index_lt hend
    have hnext := List.getElem?_eq_getElem (h.length ▸ hinner)
    rw [Line.right_inner hinner, hnext, decide_eq_false hend]
    refine ⟨_, path, rfl, ?_⟩
    rw [h.offset]
    exact h.moveTo hinner hnext

/-- Moving left. -/
theorem left (h : l.Laid path line) : ∃ l' path',
    l.left? = some (l', decide (line.index = 0)) ∧ l'.Laid path' line.left := by
  unfold left?
  rw [h.current]
  by_cases hfront : line.index = 0
  · refine ⟨_, _, ?_, h.growLeft hfront⟩
    rw [decide_eq_true hfront, hfront]
    rfl
  · have hlt : line.index - 1 < line.cells.length := by
      have := line.index_lt
      omega
    have hprev := List.getElem?_eq_getElem (h.length ▸ hlt)
    have hbefore : stepBefore path line.index = path[line.index - 1]? := by
      obtain ⟨k, hk⟩ := Nat.exists_eq_succ_of_ne_zero hfront
      rw [hk]
      rfl
    rw [Line.left_inner hfront, hbefore, hprev, decide_eq_false hfront]
    refine ⟨_, path, if_neg (by rw [h.offset]; exact hfront), ?_⟩
    rw [h.offset]
    exact h.moveTo hlt hprev

/-- Going to the rightmost cell passes the nodes from the cursor on; any
    bound that admits them will do. -/
theorem toTail (most : Nat) : ∀ {l : LinkedTape} {line : Line}, l.Laid path line →
    line.cells.length ≤ line.index + most →
    ∃ l', tailWithin? most l = some l' ∧ l'.Laid path (line.apply .toTail) := by
  induction most with
  | zero =>
      intro l line h hmost
      exact absurd line.index_lt (Nat.not_lt.mpr hmost)
  | succ most ih =>
      intro l line h hmost
      rw [tailWithin?, h.current]
      by_cases hend : line.index + 1 = line.cells.length
      · -- the cursor is there
        have hline : line.apply .toTail = line := Line.ext rfl (by
          show line.cells.length - 1 = line.index
          omega)
        rw [h.step_after_end hend, hline]
        exact ⟨l, rfl, h⟩
      · -- one link on
        have hinner := Nat.lt_of_le_of_ne line.index_lt hend
        have hnext := List.getElem?_eq_getElem (h.length ▸ hinner)
        have hmoved := h.moveTo hinner hnext
        have hmost' : line.cells.length ≤ line.index + 1 + most := by omega
        rw [hnext, h.offset]
        obtain ⟨l', hl', hlaid⟩ := ih hmoved hmost'
        exact ⟨l', hl', hlaid⟩

/-- **Every operation has a result, laid out for the line after the same
    operation, and tells whether the line got longer.** -/
theorem apply (h : l.Laid path line) (e : Tape.Edit) : ∃ l' path' grew,
    l.edit? e = some (l', grew) ∧ l'.Laid path' (line.apply e) ∧
      (grew = true ↔ line.cells.length < (line.apply e).cells.length) := by
  rw [Line.longer_iff]
  have hchange (f : Cell → Cell) : ∃ l' path',
      (l.change? f).map (·, false) = some (l', false) ∧
        l'.Laid path' (line.set (f line.value)) := by
    obtain ⟨l', hl', hlaid⟩ := h.change f
    exact ⟨l', path, congrArg (Option.map (·, false)) hl', hlaid⟩
  cases e with
  | right =>
      obtain ⟨l', path', hl', hlaid⟩ := h.right
      exact ⟨l', path', _, hl', hlaid, by simp⟩
  | left =>
      obtain ⟨l', path', hl', hlaid⟩ := h.left
      exact ⟨l', path', _, hl', hlaid, by simp⟩
  | increment =>
      obtain ⟨l', path', hl', hlaid⟩ := hchange (· + 1)
      refine ⟨l', path', false, hl', ?_, by simp⟩
      show l'.Laid path' (line.set (Int32.ofInt (line.value.toInt + 1)))
      rw [Int32.ofInt_add, Int32.ofInt_toInt]
      exact hlaid
  | decrement =>
      obtain ⟨l', path', hl', hlaid⟩ := hchange (· - 1)
      refine ⟨l', path', false, hl', ?_, by simp⟩
      show l'.Laid path' (line.set (Int32.ofInt (line.value.toInt - 1)))
      rw [Int32.ofInt_sub, Int32.ofInt_toInt]
      exact hlaid
  | toHead =>
      exact ⟨l.toHead, path, false, rfl, h.moveTo line.length_pos h.head,
        by simp⟩
  | toTail =>
      have hmost : line.cells.length ≤ line.index + l.nodes.size :=
        Nat.le_add_left_of_le (Nat.le_of_eq (h.length.trans h.size))
      obtain ⟨l', hl', hlaid⟩ := toTail l.nodes.size h hmost
      exact ⟨l', path, false, congrArg (Option.map (·, false)) hl', hlaid, by simp⟩
  | set v =>
      obtain ⟨l', path', hl', hlaid⟩ := hchange fun _ => v
      exact ⟨l', path', false, hl', hlaid, by simp⟩

/-- The same for operations one after another. -/
theorem applyAll (edits : List Tape.Edit) : ∀ {l : LinkedTape} {path : List Nat} {line : Line},
    l.Laid path line →
    ∃ l' path', editAll? edits l = some l' ∧ l'.Laid path' (line.applyAll edits) := by
  induction edits with
  | nil => intro l path line h; exact ⟨l, path, rfl, h⟩
  | cons e edits ih =>
      intro l path line h
      obtain ⟨l₁, path₁, grew, hl₁, hlaid, -⟩ := h.apply e
      rw [editAll?, hl₁]
      exact ih hlaid

end Laid

/-- The node of a row names its neighbours in the row. -/
theorem nodeInRow_eq {n k : Nat} (hlt : k < n) (v : Cell) :
    nodeInRow n k v = ⟨v, stepBefore (List.range n) k, (List.range n)[k + 1]?⟩ := by
  have hprev : (if k = 0 then none else some (k - 1)) = stepBefore (List.range n) k := by
    cases k with
    | zero => rfl
    | succ k => exact (List.getElem?_range (Nat.lt_of_succ_lt hlt)).symm
  have hnext : (if k < n - 1 then some (k + 1) else none) = (List.range n)[k + 1]? := by
    by_cases hk : k + 1 < n
    · rw [if_pos (by omega), List.getElem?_range hk]
    · rw [if_neg (by omega), List.getElem?_eq_none (by rw [List.length_range]; omega)]
  rw [nodeInRow, hprev, hnext]

/-- A row of nodes is laid out in the order of the store. -/
theorem laid_ofCells (cells : List Cell) (hne : cells ≠ []) :
    ∃ start, ofCells? cells = some start ∧
      start.Laid (List.range cells.length) (Line.start cells hne) := by
  have hpos : 0 < cells.length := List.length_pos_iff.mpr hne
  have hsize : ((cells.mapIdx (nodeInRow cells.length)).toArray).size = cells.length := by
    rw [List.size_toArray, List.length_mapIdx]
  refine ⟨_, if_neg hne, List.nodup_range, ?_, ?_, List.length_range.symm, ?_,
    List.getElem?_range hpos, List.getElem?_range hpos, rfl⟩
  · intro i
    rw [hsize, List.mem_range]
  · rw [hsize, List.length_range]
  · intro k i hk
    have hlt := (List.getElem?_eq_some_iff.mp hk).1
    rw [List.length_range] at hlt
    obtain rfl : k = i := Option.some.inj ((List.getElem?_range hlt).symm.trans hk)
    refine ⟨cells[k], List.getElem?_eq_getElem hlt, ?_⟩
    rw [List.getElem?_toArray, List.getElem?_mapIdx, List.getElem?_eq_getElem hlt]
    exact congrArg some (nodeInRow_eq hlt _)

end LinkedTape

end TapeMachine
