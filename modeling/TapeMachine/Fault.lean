import TapeMachine.Caret
import TapeMachine.Code

/-! # Faults — why a program gave no output

    A fault is a cause; its wording is made here and nowhere else. -/

namespace TapeMachine

/-- Why a request was refused or a run did not reach its end. -/
inductive Fault where
  /-- A tape was asked for without cells. -/
  | emptyTape
  /-- The brackets of the code do not pair up. -/
  | unmatched (u : Unmatched)
  /-- A trace line could not be written at the instruction at `ip`. -/
  | unwritable (ip : Nat) (reason : String)
  /-- The step limit was used up. -/
  | stepLimit (limit : Nat)
  /-- The run was cancelled. -/
  | cancelled
deriving DecidableEq, Repr

/-- The classes of faults. -/
inductive Fault.Kind where
  | invalidArgument
  | aborted
  | writing
deriving DecidableEq, Repr

namespace Fault

/-- The class of a fault. -/
def kind : Fault → Kind
  | .emptyTape => .invalidArgument
  | .unmatched _ => .invalidArgument
  | .unwritable _ _ => .writing
  | .stepLimit _ => .aborted
  | .cancelled => .aborted

/-- A bracket between single quotes. -/
def quoted (b : Bracket) : String := "'" ++ b.glyph.toString ++ "'"

/-- The fault in words. -/
def message : Fault → String
  | .emptyTape =>
      "Invalid argument: tape data must contain at least one cell"
  | .unmatched u =>
      "Invalid argument: unmatched bracket " ++ quoted u.bracket
        ++ " at instruction " ++ toString u.position
  | .unwritable ip reason =>
      "I/O error at instruction " ++ toString ip ++ ": " ++ reason
  | .stepLimit limit =>
      "Execution aborted: step limit exceeded (" ++ toString limit ++ ")"
  | .cancelled => "Execution aborted: cancelled"

/-- A message with the name of the program in front, if it is given. -/
def named (program : Option String) (message : String) : String :=
  match program with
  | some name => name ++ ": " ++ message
  | none => message

/-- The fault as shown to the user of the code.  A fault with a position
    shows the code around it; an aborted run is told in one line that
    names no program. -/
def report (program : Option String) (code : String) (f : Fault) : String :=
  match f with
  | .unmatched u =>
      Caret.report
        (named program ("Parse error: unmatched bracket " ++ quoted u.bracket))
        code u.position
  | .unwritable ip reason =>
      Caret.report (named program ("I/O error: " ++ reason)) code ip
  | .stepLimit _ => f.message ++ "\n"
  | .cancelled => f.message ++ "\n"
  | .emptyTape => named program f.message ++ "\n"

end Fault

end TapeMachine
