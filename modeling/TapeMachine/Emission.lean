import TapeMachine.Filter

/-! # Emissions — what a program writes, and where

    Everything written is a list of emissions in order: text for the
    standard output, text for the standard error, and log events, which
    go to the standard error when the filter lets them through. -/

namespace TapeMachine

/-- One thing written. -/
inductive Emission where
  /-- Text for the standard output. -/
  | out (text : String)
  /-- Text for the standard error. -/
  | err (text : String)
  /-- A line for the log. -/
  | log (event : Event)
deriving DecidableEq, Repr

namespace Emission

/-- The text on the standard output. -/
def stdout (es : List Emission) : String :=
  String.join (es.map fun
    | .out text => text
    | _ => "")

/-- The text on the standard error under a filter. -/
def stderr (filter : Filter) (es : List Emission) : String :=
  String.join (es.map fun
    | .err text => text
    | .log event => if filter.admits event then event.line ++ "\n" else ""
    | .out _ => "")

/-- Events as emissions. -/
def logs (events : List Event) : List Emission := events.map .log

end Emission

end TapeMachine
