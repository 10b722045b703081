import TapeMachine.Tape

/-! # Linked tapes — the same row of cells in a store of nodes

    A tape can also be kept as a store of nodes that name their
    neighbours by their places in the store.  New nodes go to the end of
    the store wherever they belong on the tape, so the order of the store
    tells how the tape has grown and not how it looks.

    Three things are kept that the links already say: where the first
    cell is, where the cursor is, and how far the cursor is from the
    first cell.  An operation that meets a place outside the store, or
    would count below zero, has no result.  Neither has a walk along the
    links that passes more nodes than there are: it would never end. -/

namespace TapeMachine

/-- A cell and the places of its neighbours. -/
structure Node where
  value : Cell
  /-- The place of the cell to the left, if there is one. -/
  prev : Option Nat
  /-- The place of the cell to the right, if there is one. -/
  next : Option Nat
deriving DecidableEq, Repr

/-- A row of cells in a store, with a cursor on one of them. -/
structure LinkedTape where
  nodes : Array Node
  /-- The place of the leftmost cell. -/
  head : Nat
  /-- The place of the cell under the cursor. -/
  cursor : Nat
  /-- The number of cells left of the cursor. -/
  offset : Nat
deriving DecidableEq, Repr

namespace LinkedTape

/-- The tape of a single zero cell. -/
def blank : LinkedTape := ⟨#[⟨0, none, none⟩], 0, 0, 0⟩

/-- The node for one of the given number of cells in a row. -/
def nodeInRow (count i : Nat) (v : Cell) : Node where
  value := v
  prev := if i = 0 then none else some (i - 1)
  next := if i < count - 1 then some (i + 1) else none

/-- The tape of the given cells with the cursor on the first; there is
    none without cells. -/
def ofCells? (cells : List Cell) : Option LinkedTape :=
  if cells = [] then none
  else some ⟨(cells.mapIdx (nodeInRow cells.length)).toArray, 0, 0, 0⟩

/-! ## Views -/

/-- The value under the cursor. -/
def read? (l : LinkedTape) : Option Cell := l.nodes[l.cursor]?.map Node.value

/-- The cells from a place on, following the links to the right past at
    most the given number of nodes. -/
def cellsFrom? (nodes : Array Node) : (most : Nat) → Option Nat → Option (List Cell)
  | _, none => some []
  | 0, some _ => none
  | most + 1, some i =>
      match nodes[i]? with
      | none => none
      | some node => (cellsFrom? nodes most node.next).map (node.value :: ·)

/-- All cells from left to right. -/
def cells? (l : LinkedTape) : Option (List Cell) :=
  cellsFrom? l.nodes l.nodes.size (some l.head)

/-! ## Operations -/

/-- Change the value under the cursor. -/
def change? (l : LinkedTape) (f : Cell → Cell) : Option LinkedTape :=
  l.nodes[l.cursor]?.map fun node =>
    { l with nodes := l.nodes.set! l.cursor { node with value := f node.value } }

/-- Move the cursor right, onto a new zero cell at the right end; say
    whether the cell is new. -/
def right? (l : LinkedTape) : Option (LinkedTape × Bool) :=
  match l.nodes[l.cursor]? with
  | none => none
  | some node =>
      match node.next with
      | some j => some ({ l with cursor := j, offset := l.offset + 1 }, false)
      | none =>
          let j := l.nodes.size
          let nodes := l.nodes.push ⟨0, some l.cursor, none⟩
          some ({ l with
            nodes := nodes.set! l.cursor { node with next := some j }
            cursor := j
            offset := l.offset + 1 }, true)

/-- Move the cursor left, onto a new zero cell at the left end, which is
    then the first; say whether the cell is new. -/
def left? (l : LinkedTape) : Option (LinkedTape × Bool) :=
  match l.nodes[l.cursor]? with
  | none => none
  | some node =>
      match node.prev with
      | some j =>
          if l.offset = 0 then none
          else some ({ l with cursor := j, offset := l.offset - 1 }, false)
      | none =>
          let j := l.nodes.size
          let nodes := l.nodes.push ⟨0, none, some l.cursor⟩
          some ({ l with
            nodes := nodes.set! l.cursor { node with prev := some j }
            head := j
            cursor := j }, true)

/-- Move the cursor to the leftmost cell. -/
def toHead (l : LinkedTape) : LinkedTape := { l with cursor := l.head, offset := 0 }

/-- Move the cursor to the rightmost cell, one link at a time, past at
    most the given number of nodes. -/
def tailWithin? : (most : Nat) → LinkedTape → Option LinkedTape
  | 0, _ => none
  | most + 1, l =>
      match l.nodes[l.cursor]? with
      | none => none
      | some node =>
          match node.next with
          | none => some l
          | some j => tailWithin? most { l with cursor := j, offset := l.offset + 1 }

/-- Move the cursor to the rightmost cell. -/
def toTail? (l : LinkedTape) : Option LinkedTape := tailWithin? l.nodes.size l

/-- Carry out one operation; say whether it made a new cell. -/
def edit? (l : LinkedTape) : Tape.Edit → Option (LinkedTape × Bool)
  | .right => l.right?
  | .left => l.left?
  | .increment => (l.change? (· + 1)).map (·, false)
  | .decrement => (l.change? (· - 1)).map (·, false)
  | .toHead => some (l.toHead, false)
  | .toTail => l.toTail?.map (·, false)
  | .set v => (l.change? fun _ => v).map (·, false)

/-- Carry out operations one after another. -/
def editAll? : List Tape.Edit → LinkedTape → Option LinkedTape
  | [], l => some l
  | e :: edits, l => (l.edit? e).bind fun (l', _) => editAll? edits l'

end LinkedTape

end TapeMachine
