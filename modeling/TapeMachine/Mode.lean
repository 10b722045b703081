import TapeMachine.Text.Blank

/-! # Modes — editing or reading a script

    A flag decides first, then the environment, then whether the input
    is a terminal.  The editor needs a terminal. -/

namespace TapeMachine

/-- The two ways to read submissions. -/
inductive Mode where
  | bare
  | editor
deriving DecidableEq, Repr

namespace Mode

/-- The variable that chooses the mode. -/
def modeVariable : String := "SCREWTAPE_REPL_MODE"

/-- Why no mode could be chosen. -/
inductive Refusal where
  /-- The flag asks for the editor without a terminal. -/
  | flagWithoutTerminal
  /-- The environment asks for the editor without a terminal. -/
  | environWithoutTerminal
  /-- The environment asks for no known mode. -/
  | unknown (text : String)
deriving DecidableEq, Repr

/-- The refusal in words. -/
def Refusal.message : Refusal → String
  | .flagWithoutTerminal =>
      "cannot start editor: stdin is not a TTY (use --bare or "
        ++ modeVariable ++ "=bare)"
  | .environWithoutTerminal =>
      "cannot start editor: stdin is not a TTY (use " ++ modeVariable
        ++ "=bare)"
  | .unknown text =>
      "invalid " ++ modeVariable ++ " value: " ++ text
        ++ ", must be 'bare' or 'editor'"

/-- Choose the mode. -/
def choose (flag : Option Mode) (environ : Option String)
    (terminal : Bool) : Except Refusal Mode :=
  match flag, environ with
  | some .bare, _ => .ok .bare
  | some .editor, _ =>
      if terminal then .ok .editor else .error .flagWithoutTerminal
  | none, some text =>
      let name := Text.lower (Text.trim text)
      if name = "bare" then .ok .bare
      else if name = "editor" then
        if terminal then .ok .editor else .error .environWithoutTerminal
      else .error (.unknown text)
  | none, none => .ok (if terminal then .editor else .bare)

end Mode

end TapeMachine
