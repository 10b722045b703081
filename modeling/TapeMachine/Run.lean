import TapeMachine.Machine

/-! # Runs — stepping under control and under observation

    A run repeats the machine's step until something ends it.  Before
    each instruction the control is asked: a raised cancel flag comes
    first, then the step limit.  After each instruction an observer is
    shown the states before and after and keeps notes; an observer that
    cannot go on ends the run, with the instruction already done.

    The run is a total function of a fuel: the number of instructions
    it may look at before it gives up as unfinished.  More fuel never
    changes an answer that was reached. -/

namespace TapeMachine

/-- What may end a run from outside. -/
structure Control where
  /-- The number of steps allowed, if there is a limit. -/
  limit : Option Nat := none
  /-- Is the cancel flag raised? -/
  cancelled : Bool := false
deriving DecidableEq, Repr

/-- Has the limit been used up? -/
@[inline]
def Control.exhausted (c : Control) (steps : Nat) : Bool :=
  match c.limit with
  | none => false
  | some n => n ≤ steps

/-- How a run ended. -/
inductive Halt where
  /-- The end of the code was reached. -/
  | finished
  /-- The cancel flag was raised. -/
  | cancelled
  /-- The step limit was used up before the end. -/
  | limitReached (limit : Nat)
  /-- The observer could not go on at the instruction at `ip`. -/
  | unobservable (ip : Nat)
  /-- The fuel ran out first. -/
  | unfinished
deriving DecidableEq, Repr

/-- An observer's reaction to one step: its new notes, or its last notes
    as an error if it cannot go on. -/
abbrev Observer (M σ : Type) := Instr → State M → State M → σ → Except σ σ

/-- Where a run ended, how, and what its observer noted. -/
structure Outcome (M σ : Type) where
  /-- The last state. -/
  state : State M
  /-- The observer's notes. -/
  notes : σ
  /-- Why there was no further step. -/
  halt : Halt

namespace Code

variable {M σ : Type} [Memory M]

/-- Run code from a state, for at most `fuel` instructions. -/
@[specialize]
def run (code : Code) (control : Control) (observe : Observer M σ) :
    (fuel : Nat) → State M → σ → Outcome M σ
  | 0, s, notes => ⟨s, notes, .unfinished⟩
  | fuel + 1, s, notes =>
      match code[s.ip]? with
      | none => ⟨s, notes, .finished⟩
      | some i =>
          if control.cancelled then ⟨s, notes, .cancelled⟩
          else if control.exhausted s.steps then
            ⟨s, notes, .limitReached (control.limit.getD 0)⟩
          else
            match observe i s (i.act s) notes with
            | .error notes' => ⟨i.act s, notes', .unobservable s.ip⟩
            | .ok notes' => run code control observe fuel (i.act s) notes'

end Code

end TapeMachine
