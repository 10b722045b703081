import TapeMachine.Text.Blank

/-! # Meta commands — words to the session itself

    A meta command stands alone: it is the whole text, blanks at the
    ends aside.  Anything else is program text, even if it starts with a
    colon. -/

namespace TapeMachine

/-- A word to the session itself. -/
inductive MetaCommand where
  | exit
  | help
  | reset
  | tape
deriving DecidableEq, Repr

namespace MetaCommand

/-- The meta command a text consists of. -/
def ofText? (text : String) : Option MetaCommand :=
  match Text.trim text with
  | ":exit" | ":quit" => some .exit
  | ":help" => some .help
  | ":reset" => some .reset
  | ":tape" => some .tape
  | _ => none

/-- The meta commands and what they do. -/
def helpText : String :=
  "Meta commands (line starts with \":\")\n"
    ++ "  :exit            Exit immediately (code 0)\n"
    ++ "  :help            Show this help\n"
    ++ "  :reset           Discard the pending buffer and start over with a fresh tape\n"
    ++ "  :tape            Print the tape, cursor position and cursor value"

end MetaCommand

end TapeMachine
