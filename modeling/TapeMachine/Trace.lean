import TapeMachine.Text.Quoted
import TapeMachine.Run
import TapeMachine.Tape

/-! # Traces — a table with one row per step

    Tracing is observing: each row is read off the states before and
    after one step.  The table is written to a sink, which may have room
    for a limited number of bytes; a line that does not fit is refused
    as a whole. -/

namespace TapeMachine

/-- What one step did. -/
inductive Action where
  /-- The cursor moved right to the given offset, maybe onto a new
      cell. -/
  | movedRight (offset : Nat) (grew : Bool)
  /-- The cursor moved left to the given offset. -/
  | movedLeft (offset : Nat)
  /-- The cursor moved left onto a new cell. -/
  | extendedLeft
  | incremented (offset : Nat) (old new : Cell)
  | decremented (offset : Nat) (old new : Cell)
  | printed (c : Char)
  | enteredLoop
  /-- Control went back to the loop that starts at `start`. -/
  | jumpedBack (start : Nat)
  | leftLoop
  | ignored
deriving DecidableEq, Repr

namespace Action

/-- The action of an instruction that took tape `t` to tape `t'`. -/
def of (i : Instr) (t t' : Tape) : Action :=
  match i with
  | .right => .movedRight t'.offset (t.grows .right)
  | .left => if t.grows .left then .extendedLeft else .movedLeft t'.offset
  | .increment => .incremented t.offset t.cell t'.cell
  | .decrement => .decremented t.offset t.cell t'.cell
  | .print => .printed t.cell.glyph
  | .loopStart => .enteredLoop
  | .loopEnd start => if t.cell = 0 then .leftLoop else .jumpedBack start
  | .comment _ => .ignored

/-- The action in words. -/
def text : Action → String
  | .movedRight offset grew =>
      "Moved cursor to cell " ++ toString offset
        ++ if grew then " (new cell)" else ""
  | .movedLeft offset => "Moved cursor to cell " ++ toString offset
  | .extendedLeft => "Extended tape left; cursor on new head"
  | .incremented offset old new =>
      "Increment cell[" ++ toString offset ++ "] from " ++ old.text
        ++ " to " ++ new.text
  | .decremented offset old new =>
      "Decrement cell[" ++ toString offset ++ "] from " ++ old.text
        ++ " to " ++ new.text
  | .printed c => "Output " ++ Text.Quoted.char c
  | .enteredLoop => "Loop start (no-op)"
  | .jumpedBack start =>
      "Cell != 0; jump back to matching '[' at IP " ++ toString start
  | .leftLoop => "Exit loop (cell is 0)"
  | .ignored => "Ignored"

end Action

/-- One row of the table: the state before a step, and what it did. -/
structure Row where
  step : Nat
  ip : Nat
  offset : Nat
  cell : Cell
  glyph : Char
  action : Action
deriving DecidableEq, Repr

namespace Row

/-- The row of one step. -/
def of (i : Instr) (s s' : State Tape) : Row where
  step := s.steps
  ip := s.ip
  offset := s.memory.offset
  cell := s.memory.cell
  glyph := i.glyph
  action := .of i s.memory s'.memory

/-- Pad a text on the right with spaces to the given width. -/
def pad (width : Nat) (text : String) : String :=
  text.pushn ' ' (width - text.length)

/-- The row as a line of text, with its newline. -/
def line (r : Row) : String :=
  pad 4 (toString r.step) ++ " | " ++ pad 3 (toString r.ip) ++ " | "
    ++ pad 3 (toString r.offset) ++ " | " ++ pad 4 r.cell.text ++ " |  "
    ++ r.glyph.toString ++ "    | " ++ r.action.text ++ "\n"

/-- The two lines above the first row. -/
def header : String :=
  "STEP | IP  | PTR | CELL | INSTR | ACTION\n"
    ++ "-----+-----+-----+------+-------+"
    ++ "------------------------------------------------\n"

end Row

/-- A place to write text, with room for a number of bytes or without
    limit. -/
structure Sink where
  /-- The bytes still accepted, if there is a limit. -/
  room : Option Nat := none
  /-- What was written. -/
  written : String := ""
deriving DecidableEq, Repr

namespace Sink

/-- Is there room for a text? -/
def accepts (sink : Sink) (text : String) : Bool :=
  match sink.room with
  | none => true
  | some n => text.utf8ByteSize ≤ n

/-- Put a text at the end of what was written, using up its room. -/
def append (sink : Sink) (text : String) : Sink :=
  match sink with
  | ⟨room, written⟩ => ⟨room.map (· - text.utf8ByteSize), written ++ text⟩

/-- Write a text, unless there is too little room for it. -/
def write (sink : Sink) (text : String) : Option Sink :=
  if sink.accepts text then some (sink.append text) else none

/-- Why a text was refused. -/
def complaint : String := "trace full"

end Sink

end TapeMachine
