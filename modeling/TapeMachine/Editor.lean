import TapeMachine.MetaCommand
import TapeMachine.Session

/-! # The editor — a session of submissions

    Each submission is a meta command or a program, which may have
    several lines; a blank one is passed over.  The session ends at
    `:exit`, at the end of the input, or after one program if only one
    is wanted. -/

namespace TapeMachine

namespace Editor

/-- What a submission leads to. -/
structure Answer where
  session : Session
  written : List Emission
  /-- Does the session end here? -/
  ends : Bool := false

/-- Answer one submission, and wait for so many steps if it is a
    program. -/
def answerWithin (patience : Nat) (once : Bool) (s : Session) (text : String) :
    Answer :=
  if Text.allBlank text then { session := s, written := [] }
  else
    match MetaCommand.ofText? text with
    | some .exit => { session := s, written := [], ends := true }
    | some .help =>
        { session := s, written := [.err (MetaCommand.helpText ++ "\n")] }
    | some .reset =>
        { session := s.reset, written := [.err "tape reset\n"] }
    | some .tape => { session := s, written := s.tell }
    | none =>
        let (session, written) := s.submitWithin patience text
        { session, written, ends := once }

/-- Answer one submission, and wait for it as long as the limits say. -/
def answer (once : Bool) (s : Session) (text : String) : Answer :=
  answerWithin s.limits.patience once s text

/-- What is written before the first submission: the terminal is watched
    for keys and for signals. -/
def opening : List Emission := Emission.logs [.listening 0, .listening 1]

/-- What is written at the end of the input. -/
def farewell : List Emission := [.out "\n"]

/-- What is written for each submission, and then for the end of the
    input if that is reached, by an editor that waits for so many steps of
    each program. -/
def playWithin (patience : Nat) (once : Bool) (s : Session) :
    List String → List (List Emission)
  | [] => [farewell]
  | text :: rest =>
      let a := answerWithin patience once s text
      a.written :: if a.ends then [] else playWithin patience once a.session rest

/-- What is written if each program is waited for as long as the limits
    say. -/
def play (once : Bool) (s : Session) : List String → List (List Emission) :=
  playWithin s.limits.patience once s

end Editor

end TapeMachine
