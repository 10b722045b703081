import TapeMachine.Fault
import TapeMachine.Log
import TapeMachine.Trace

/-! # Executions — a program from its text to its result

    Executing a program resolves its text, runs the code on a tape and
    says what came of it.  Code with brackets that do not pair up never
    touches the tape, and a run that ends early keeps the changes made
    by the steps it took.  Two things may be watched on the way: a trace
    table and the log. -/

namespace TapeMachine

/-- What is watched during a run. -/
structure Watch where
  /-- Where the trace table goes, if one is wanted. -/
  sink : Option Sink := none
  /-- The jumps seen, newest first, if they are wanted. -/
  jumps : Option (List Event) := none
deriving DecidableEq, Repr

namespace Watch

/-- Note the jump of one step, if it is one. -/
def noteJump (jumps : Option (List Event)) (i : Instr) (s : State Tape) :
    Option (List Event) :=
  match jumps, i with
  | some seen, .loopEnd start =>
      if s.memory.cell = 0 then some seen
      else some (.jumpBack s.ip start :: seen)
  | jumps, _ => jumps

/-- Watch one step: a jump is noted before the row of the step is
    written, so it is kept even if there is no room for the row. -/
def see : Observer Tape Watch := fun i s s' w =>
  match w with
  | ⟨none, none⟩ => .ok w
  | ⟨none, jumps⟩ => .ok ⟨none, noteJump jumps i s⟩
  | ⟨some sink, jumps⟩ =>
      let line := (Row.of i s s').line
      if sink.accepts line then
        .ok ⟨some (sink.append line), noteJump jumps i s⟩
      else .error ⟨some sink, noteJump jumps i s⟩

/-- Write the head of the trace table. -/
def begin (w : Watch) : Option Watch :=
  match w.sink with
  | none => some w
  | some sink => (sink.write Row.header).map fun sink' => { w with sink := sink' }

/-- The text of the trace table. -/
def trace (w : Watch) : String :=
  match w.sink with
  | none => ""
  | some sink => sink.written

/-- The jumps seen, oldest first. -/
def events (w : Watch) : List Event := (w.jumps.getD []).reverse

end Watch

/-- What came of executing a program. -/
structure Execution where
  /-- The tape afterwards. -/
  tape : Tape
  /-- The output, or why there is none. -/
  result : Except Fault String
  /-- The trace table. -/
  trace : String := ""
  /-- What was logged. -/
  events : List Event := []

namespace Execution

/-- What a run that ended tells; nothing if its fuel ran out. -/
def ofOutcome (loops : Nat) (o : Outcome Tape Watch) : Option Execution :=
  let told (result : Except Fault String) (last : List Event) :=
    some {
      tape := o.state.memory
      result
      trace := o.notes.trace
      events := .loopsPaired loops :: o.notes.events ++ last }
  match o.halt with
  | .finished => told (.ok o.state.text) []
  | .cancelled =>
      told (.error .cancelled) [.cancelled o.state.steps o.state.ip]
  | .limitReached limit =>
      told (.error (.stepLimit limit)) [.limitReached limit o.state.ip]
  | .unobservable ip => told (.error (.unwritable ip Sink.complaint)) []
  | .unfinished => none

end Execution

/-- Execute a program on a tape with the given fuel; there is no answer
    if the fuel runs out. -/
def execute (fuel : Nat) (control : Control) (watch : Watch) (text : String)
    (tape : Tape) : Option Execution :=
  match Code.ofText text with
  | .error u => some { tape, result := .error (.unmatched u) }
  | .ok code =>
      let loops := code.loops.length
      match watch.begin with
      | none =>
          some {
            tape
            result := .error (.unwritable 0 Sink.complaint)
            events := [.loopsPaired loops] }
      | some watch =>
          Execution.ofOutcome loops
            (code.run control Watch.see fuel (.start tape) watch)

/-- What is logged about a program before its first step. -/
def preparation (text : String) : List Event :=
  match Code.ofText text with
  | .error _ => []
  | .ok code => [.loopsPaired code.loops.length]

/-- Give the tape new cells, with the cursor on the first. -/
def replaceTape (cells : List Cell) : Except Fault (Tape × List Event) :=
  match Tape.ofCells? cells with
  | none => .error .emptyTape
  | some tape => .ok (tape, [.tapeReplaced cells.length])

end TapeMachine
