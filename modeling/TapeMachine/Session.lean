import TapeMachine.Emission
import TapeMachine.Execution
import TapeMachine.Limits

/-! # Sessions — submissions on one tape

    A session keeps its tape from one submission to the next.  A
    submission runs under the session's limits; one that takes longer
    than its caller waits is given up, and the session goes on with a
    fresh tape.  Whatever happens, a newline follows on the standard
    output. -/

namespace TapeMachine

/-- Execute a program for a caller who waits for so many steps; no answer
    means that the caller gave up. -/
def executeWithin (patience : Nat) (maxSteps : Option Nat) (watch : Watch)
    (text : String) (tape : Tape) : Option Execution :=
  execute patience { limit := maxSteps } watch text tape

/-- What a caller says who gave up. -/
def timedOutMessage (timeoutMs : Nat) : String :=
  "Execution aborted: wall-clock timeout exceeded (" ++ toString timeoutMs
    ++ " ms)"

/-- What is logged about a run that its caller gave up.  How far it had
    come is a matter of luck, so its jumps are not told. -/
def givenUp (limits : Limits) (text : String) : List Event :=
  preparation text ++ [.timedOut limits.timeoutMs]

/-- A session: its tape and its limits. -/
structure Session where
  tape : Tape := .blank
  limits : Limits
  /-- What is watched in each run. -/
  watch : Watch := {}

namespace Session

/-- What is written about a finished execution of a submission. -/
def told (text : String) (e : Execution) : List Emission :=
  Emission.logs e.events ++
    match e.result with
    | .ok output => [.out output]
    | .error fault => [.err (fault.report none text)]

/-- Run a submission for a caller who waits for so many steps. -/
def submitWithin (patience : Nat) (s : Session) (text : String) :
    Session × List Emission :=
  match executeWithin patience s.limits.maxSteps s.watch text s.tape with
  | some e => ({ s with tape := e.tape }, told text e ++ [.out "\n"])
  | none =>
      ({ s with tape := .blank },
        Emission.logs (givenUp s.limits text) ++
          [.err (timedOutMessage s.limits.timeoutMs ++ "\n"),
            .err "tape was reset\n", .out "\n"])

/-- Run a submission for a caller who waits as long as the limits say. -/
def submit (s : Session) (text : String) : Session × List Emission :=
  s.submitWithin s.limits.patience text

/-- Start over with a fresh tape. -/
def reset (s : Session) : Session := { s with tape := .blank }

/-- Tell the tape. -/
def tell (s : Session) : List Emission := [.err (s.tape.summary ++ "\n")]

end Session

end TapeMachine
