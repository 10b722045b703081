import TapeMachine.Text.Quoted

/-! # The log — events and their lines

    An event has a level, a channel, a message and fields.  Its line
    holds the level, the message and then the fields by name.  What a
    terminal would act upon is made harmless in the message, but not in
    the fields.  Some events have fields that are never written and only
    serve to pick the event out. -/

namespace TapeMachine

/-- How much an event matters, from the most to the least. -/
inductive Level where
  | error
  | warn
  | info
  | debug
  | trace
deriving DecidableEq, Repr

namespace Level

/-- A number that grows with the detail. -/
def detail : Level → Nat
  | .error => 1
  | .warn => 2
  | .info => 3
  | .debug => 4
  | .trace => 5

/-- The level as written in a log line. -/
def text : Level → String
  | .error => "ERROR"
  | .warn => "WARN"
  | .info => "INFO"
  | .debug => "DEBUG"
  | .trace => "TRACE"

end Level

/-- Something worth a line in the log. -/
inductive Event where
  /-- The brackets of a program were paired. -/
  | loopsPaired (loops : Nat)
  /-- A loop went back to its start. -/
  | jumpBack (ip start : Nat)
  /-- A run saw the cancel flag. -/
  | cancelled (steps ip : Nat)
  /-- A run used up its step limit. -/
  | limitReached (limit ip : Nat)
  /-- A tape was given new cells. -/
  | tapeReplaced (cells : Nat)
  /-- The settings are about to be read. -/
  | loadingSettings (path : String)
  /-- There is no place where settings could be. -/
  | noSettingsHome
  /-- The settings could not be used. -/
  | settingsRefused (problem : String)
  /-- A variable is no number. -/
  | ignoredVariable (name text : String)
  /-- The limits are settled. -/
  | limitsResolved (timeoutMs : Nat) (maxSteps : Option Nat)
  /-- A run took longer than allowed. -/
  | timedOut (timeoutMs : Nat)
  /-- A piped program is about to run. -/
  | runningScript (chars : Nat)
  /-- The terminal is watched for what comes from one of its sources. -/
  | listening (source : Nat)
deriving DecidableEq, Repr

namespace Event

/-- How much an event matters. -/
def level : Event → Level
  | .jumpBack _ _ => .trace
  | .listening _ => .trace
  | .settingsRefused _ => .warn
  | .ignoredVariable _ _ => .warn
  | _ => .debug

/-- The channel an event is reported on. -/
def channel : Event → String
  | .loopsPaired _ => "screwtape::interpreter"
  | .jumpBack _ _ => "screwtape::interpreter"
  | .cancelled _ _ => "screwtape::interpreter"
  | .limitReached _ _ => "screwtape::interpreter"
  | .tapeReplaced _ => "screwtape::interpreter"
  | .loadingSettings _ => "screwtape::config"
  | .noSettingsHome => "screwtape::config"
  | .settingsRefused _ => "screwtape::config"
  | .ignoredVariable _ _ => "screwtape::runner"
  | .limitsResolved _ _ => "screwtape::runner"
  | .timedOut _ => "screwtape::runner"
  | .runningScript _ => "screwtape::repl"
  | .listening _ => "mio::poll"

/-- An optional number as written in the log. -/
def optional : Option Nat → String
  | none => "None"
  | some n => "Some(" ++ toString n ++ ")"

/-- What an event says in words. -/
def message : Event → String
  | .loopsPaired _ => "jump table built"
  | .jumpBack _ _ => "jump back"
  | .cancelled _ _ => "execution cancelled"
  | .limitReached _ _ => "step limit reached"
  | .tapeReplaced _ => "tape replaced"
  | .loadingSettings _ => "loading config"
  | .noSettingsHome => "no config home; using default settings"
  | .settingsRefused problem => problem ++ "; using default settings"
  | .ignoredVariable name text =>
      "ignoring " ++ name ++ "=" ++ Text.Quoted.string text
        ++ ": not a non-negative integer"
  | .limitsResolved _ _ => "resolved execution limits"
  | .timedOut _ => "worker timed out; cancelling"
  | .runningScript _ => "running bare submission"
  | .listening source =>
      "registering event source with poller: token=Token("
        ++ toString source ++ "), interests=READABLE"

/-- What an event says besides, by name. -/
def fields : Event → List (String × String)
  | .loopsPaired loops => [("loops", toString loops)]
  | .jumpBack ip start => [("from", toString ip), ("to", toString start)]
  | .cancelled steps ip => [("step", toString steps), ("ip", toString ip)]
  | .limitReached limit ip => [("limit", toString limit), ("ip", toString ip)]
  | .tapeReplaced cells => [("cells", toString cells)]
  | .loadingSettings path => [("path", path)]
  | .noSettingsHome => []
  | .settingsRefused _ => []
  | .ignoredVariable _ _ => []
  | .limitsResolved timeoutMs maxSteps =>
      [("limits", "Limits \x7b timeout_ms: " ++ toString timeoutMs
        ++ ", max_steps: " ++ optional maxSteps ++ " \x7d")]
  | .timedOut timeoutMs => [("timeout_ms", toString timeoutMs)]
  | .runningScript chars => [("chars", toString chars)]
  | .listening _ => []

/-- The names of the fields that are never written: they tell where the
    watching of the terminal was reported. -/
def silentFields : Event → List String
  | .listening _ => ["log.target", "log.module_path", "log.file", "log.line"]
  | _ => []

/-- Has an event a field of this name?  The message counts as one. -/
def hasField (e : Event) (name : String) : Bool :=
  name == "message" || e.fields.any (·.1 == name)
    || e.silentFields.contains name

/-- A character of a message.  Those that a terminal would act upon are
    written as their codes: bell, backspace, form feed, escape, delete
    and the controls from U+0080 to U+009F. -/
def harmless (c : Char) : List Char :=
  let n := c.toNat
  if n = 0x07 then ['\\', 'x', '0', '7']
  else if n = 0x08 then ['\\', 'x', '0', '8']
  else if n = 0x0C then ['\\', 'x', '0', 'c']
  else if n = 0x1B then ['\\', 'x', '1', 'b']
  else if n = 0x7F then ['\\', 'x', '7', 'f']
  else if 0x80 ≤ n ∧ n ≤ 0x9F then
    ['\\', 'u', '\x7b'] ++ Text.Quoted.hex n ++ ['\x7d']
  else [c]

/-- The line of the log. -/
def line (e : Event) : String :=
  e.level.text ++ " "
    ++ String.ofList (e.message.toList.flatMap harmless)
    ++ String.join (e.fields.map fun (name, value) =>
      " " ++ name ++ "=" ++ value)

end Event

end TapeMachine
