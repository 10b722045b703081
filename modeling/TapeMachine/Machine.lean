import TapeMachine.Code
import TapeMachine.Memory

/-! # The machine — one instruction at a time

    A state is a position in the code, a memory, the output so far and
    the number of steps taken.  Every character of the program is one
    step.  A loop tests its cell at the end, so its body always runs at
    least once: the closing bracket goes back to just after its opening
    bracket while the cell under the cursor is not zero. -/

namespace TapeMachine

/-- The state of a run between two steps. -/
structure State (M : Type) where
  /-- The position of the next instruction. -/
  ip : Nat := 0
  /-- The number of steps taken. -/
  steps : Nat := 0
  /-- The memory. -/
  memory : M
  /-- The characters printed, newest first. -/
  printed : List Char := []
deriving Repr

namespace State

/-- The state before the first step on the given memory. -/
def start {M : Type} (memory : M) : State M := { memory }

/-- The characters printed, in the order of printing. -/
def output {M : Type} (s : State M) : List Char := s.printed.reverse

/-- Everything printed, as text. -/
def text {M : Type} (s : State M) : String := String.ofList s.output

end State

namespace Instr

variable {M : Type} [Memory M]

/-- Where control goes from position `ip`, given the cell under the
    cursor. -/
@[inline]
def next (i : Instr) (ip : Nat) (v : Cell) : Nat :=
  match i with
  | .loopEnd start => if v = 0 then ip + 1 else start + 1
  | _ => ip + 1

/-- What an instruction does to the memory. -/
@[inline]
def onMemory (i : Instr) (m : M) : M :=
  match i with
  | .right => Memory.right m
  | .left => Memory.left m
  | .increment => Memory.write m (Memory.read m + 1)
  | .decrement => Memory.write m (Memory.read m - 1)
  | _ => m

/-- What an instruction adds to the characters printed, newest first. -/
@[inline]
def onPrinted (i : Instr) (v : Cell) (printed : List Char) : List Char :=
  match i with
  | .print => v.glyph :: printed
  | _ => printed

/-- Carry out one instruction. -/
@[inline]
def act (i : Instr) (s : State M) : State M where
  ip := i.next s.ip (Memory.read s.memory)
  steps := s.steps + 1
  memory := i.onMemory s.memory
  printed := i.onPrinted (Memory.read s.memory) s.printed

end Instr

namespace Code

variable {M : Type} [Memory M]

/-- One step; there is none past the end of the code. -/
def step? (code : Code) (s : State M) : Option (State M) :=
  code[s.ip]?.map (·.act s)

/-- At most `n` steps, fewer only if the end of the code is reached. -/
def after (code : Code) : Nat → State M → State M
  | 0, s => s
  | n + 1, s =>
      match code.step? s with
      | none => s
      | some s' => after code n s'

end Code

end TapeMachine
