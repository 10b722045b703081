import TapeMachine.Text.Blank
import TapeMachine.Text.Numeral
import TapeMachine.Log

/-! # Limits — how long a program may run

    A limit is taken from the first source that gives it: a flag, an
    environment variable, the settings, a default.  A variable whose
    text is no number is reported and then treated as if it were not
    set. -/

namespace TapeMachine

/-- How long a program may run. -/
structure Limits where
  /-- The wall-clock time allowed, in milliseconds. -/
  timeoutMs : Nat
  /-- The number of steps allowed, if there is a limit. -/
  maxSteps : Option Nat
deriving DecidableEq, Repr

namespace Limits

/-- The time allowed when nothing else says. -/
def defaultTimeoutMs : Nat := 2000

/-- The variable for the time allowed. -/
def timeoutVariable : String := "SCREWTAPE_TIMEOUT_MS"

/-- The variable for the number of steps allowed. -/
def maxStepsVariable : String := "SCREWTAPE_MAX_STEPS"

/-- The number given by the text of a variable, blanks around it
    aside. -/
def reading (text : String) : Option Nat := Text.natural? (Text.trim text)

/-- What the user gave for one limit. -/
structure Source where
  /-- The flag on the command line. -/
  flag : Option Nat := none
  /-- The text of the environment variable. -/
  environ : Option String := none
  /-- The value in the settings. -/
  setting : Option Nat := none
deriving DecidableEq, Repr

namespace Source

/-- The value of one limit before its default: flag, variable,
    settings. -/
def pick (s : Source) : Option Nat :=
  (s.flag <|> s.environ.bind reading) <|> s.setting

/-- The warning for a variable that is asked for and is no number. -/
def warnings (s : Source) (name : String) : List Event :=
  match s.flag, s.environ with
  | none, some text =>
      if (reading text).isNone then [.ignoredVariable name text] else []
  | _, _ => []

end Source

/-- The limits that hold, and what is logged on the way. -/
def resolve (timeout maxSteps : Source) : Limits × List Event :=
  let limits : Limits :=
    ⟨timeout.pick.getD defaultTimeoutMs, maxSteps.pick⟩
  (limits,
    timeout.warnings timeoutVariable ++ maxSteps.warnings maxStepsVariable
      ++ [.limitsResolved limits.timeoutMs limits.maxSteps])

/-! ## Patience

    Time is counted in steps: a caller waits for as many steps as fit
    into the time allowed. -/

/-- How many steps a caller waits for in one millisecond. -/
def stepsPerMillisecond : Nat := 10000

/-- The greatest number of steps anyone waits for. -/
def mostPatience : Nat := 0x4000000000000000

/-- How many steps a caller waits for before giving up. -/
def patience (limits : Limits) : Nat :=
  min (limits.timeoutMs * stepsPerMillisecond) mostPatience

end Limits

end TapeMachine
