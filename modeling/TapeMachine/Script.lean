import TapeMachine.MetaCommand
import TapeMachine.Session
import TapeMachine.Text.Lines

/-! # Scripts — a whole session piped in

    The lines of a script are program text or meta commands.  The text
    runs once, on a fresh tape, after the help and before the tape are
    shown.  `:reset` discards the text so far and `:exit` everything
    after it. -/

namespace TapeMachine

/-- A script taken apart. -/
structure Script where
  /-- The program text. -/
  program : String := ""
  /-- Is the help to be shown? -/
  showHelp : Bool := false
  /-- Is the tape to be shown? -/
  showTape : Bool := false
deriving DecidableEq, Repr

namespace Script

/-- Add the next lines to a script. -/
def addLines (s : Script) : List String → Script
  | [] => s
  | line :: rest =>
      match MetaCommand.ofText? line with
      | none => addLines { s with program := s.program ++ line ++ "\n" } rest
      | some .exit => s
      | some .help => addLines { s with showHelp := true } rest
      | some .reset => addLines { s with program := "" } rest
      | some .tape => addLines { s with showTape := true } rest

/-- Take a script apart. -/
def parse (text : String) : Script := addLines {} (Text.lines text)

/-- A submission read to its end: nothing if it is empty or no text. -/
def submission? (bytes : ByteArray) : Option String :=
  match String.fromUTF8? bytes with
  | none => none
  | some text => if text.isEmpty then none else some text

/-- Run the program of a script, unless it is blank, and wait for so many
    steps. -/
def performWithin (patience : Nat) (s : Script) (session : Session) :
    Session × List Emission :=
  if Text.allBlank s.program then (session, [])
  else
    let (session, written) := session.submitWithin patience s.program
    (session, .log (.runningScript s.program.length) :: written)

/-- Run a whole script in a new session, and wait for so many steps of its
    program. -/
def playWithin (patience : Nat) (session : Session) (text : String) :
    List Emission :=
  let script := parse text
  let (session, written) := script.performWithin patience session
  (if script.showHelp then [.err (MetaCommand.helpText ++ "\n")] else [])
    ++ written
    ++ if script.showTape then session.tell else []

/-- Run a whole script in a new session, and wait as long as the limits
    say. -/
def play (session : Session) (text : String) : List Emission :=
  playWithin session.limits.patience session text

end Script

end TapeMachine
