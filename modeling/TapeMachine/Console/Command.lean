import TapeMachine.Composer
import TapeMachine.Console.Arguments
import TapeMachine.Console.Usage
import TapeMachine.Editor
import TapeMachine.Files
import TapeMachine.Script
import TapeMachine.Settings

/-! # Commands — from the command line to what is written

    A command sees the world around it: its arguments, the environment,
    the files, the standard input.  Its reply is an exit code and what
    it wrote, or a session ready to be edited.  Nothing here touches the
    real world, so a reply is a function of what was seen. -/

namespace TapeMachine.Console

/-- What a command sees of the world around it. -/
structure World where
  /-- The name the program was called by. -/
  program : String
  /-- The variables that are set. -/
  environ : List (String × String)
  /-- Reading a file. -/
  read : String → Except ReadProblem String
  /-- The bytes on the standard input. -/
  stdin : ByteArray
  /-- Is the standard input a terminal? -/
  terminal : Bool

/-- What comes of a command. -/
inductive Reply where
  /-- It is done. -/
  | done (code : Nat) (written : List Emission)
  /-- It wrote something and now takes submissions, only one of them a
      program if `once` says so. -/
  | editing (written : List Emission) (session : Session) (once : Bool)

namespace World

/-- The value of a variable. -/
def lookup? (w : World) (name : String) : Option String :=
  w.environ.lookup name

/-- Which log events are shown. -/
def filter (w : World) : Filter :=
  ((w.lookup? "SCREWTAPE_LOG").bind Filter.ofText?).getD (.upTo .warn)

/-- What is watched in a run: jumps only if they would be shown. -/
def watch (w : World) : Watch :=
  { jumps := if w.filter.admits (.jumpBack 0 0) then some [] else none }

/-- Put a name below a directory. -/
def below (directory name : String) : String :=
  if directory.isEmpty ∨ directory.toList.getLast? = some '/' then
    directory ++ name
  else directory ++ "/" ++ name

/-- Where the settings are: at a path of their own, or in the directory
    for settings, which is below the home directory unless a variable
    names it.  An empty name of the home directory names none. -/
def settingsPath (w : World) : Option String :=
  match w.lookup? "SCREWTAPE_CONFIG" with
  | some path => some path
  | none =>
      let home := (w.lookup? "HOME").filter (!·.isEmpty)
      (w.lookup? "XDG_CONFIG_HOME" <|> home.map (below · ".config")).map
        (below · "screwtape.toml")

/-- The settings, and what is logged on the way.  Settings that cannot
    be used are reported, and the defaults hold. -/
def settings (w : World) : Settings × List Event :=
  match w.settingsPath with
  | none => ({}, [.noSettingsHome])
  | some path =>
      match Settings.load path (w.read path) with
      | .ok settings => (settings, [.loadingSettings path])
      | .error problem =>
          ({}, [.loadingSettings path, .settingsRefused problem.message])

/-- The limits for the given flags, and what is logged on the way. -/
def limits (w : World) (timeoutMs maxSteps : Option Nat) :
    Limits × List Event :=
  let (settings, loading) := w.settings
  let (limits, resolving) :=
    Limits.resolve
      { flag := timeoutMs, environ := w.lookup? Limits.timeoutVariable
        setting := settings.timeoutMs }
      { flag := maxSteps, environ := w.lookup? Limits.maxStepsVariable
        setting := settings.maxSteps }
  (limits, loading ++ resolving)

/-- A complaint with the name of the program. -/
def complain (w : World) (message : String) : Emission :=
  .err (w.program ++ ": " ++ message ++ "\n")

end World

/-! ## The commands -/

/-- Run code on a tape and tell what came of it. -/
def runOn (w : World) (r : RunRequest) (code : String) (tape : Tape) :
    Reply :=
  let (limits, resolving) := w.limits r.timeoutMs r.maxSteps
  let watch :=
    if r.debug then { w.watch with sink := some {} } else w.watch
  let before := Emission.logs resolving
  match executeWithin limits.patience limits.maxSteps watch code tape with
  | none =>
      .done 1 (before ++ Emission.logs (givenUp limits code) ++
        [.err (timedOutMessage limits.timeoutMs ++ "\n"), .out "\n"])
  | some e =>
      let summary := if r.showTape then [.err (e.tape.summary ++ "\n")] else []
      let ran := before ++ .out e.trace :: Emission.logs e.events
      match e.result with
      | .ok output => .done 0 (ran ++ .out output :: summary ++ [.out "\n"])
      | .error fault =>
          .done 1 (ran ++ .err (fault.report (some w.program) code) :: summary
            ++ [.out "\n"])

/-- Put the cells asked for on the tape and run code. -/
def runCode (w : World) (r : RunRequest) (code : String) : Reply :=
  match r.tape with
  | none => runOn w r code .blank
  | some cells =>
      match replaceTape cells with
      | .error fault => .done 2 [.err (fault.report (some w.program) code)]
      | .ok (tape, events) =>
          match runOn w r code tape with
          | .done exit written =>
              .done exit (Emission.logs events ++ written)
          | reply => reply

/-- Run the code given as operands or in a file. -/
def run (w : World) (r : RunRequest) : Reply :=
  if r.help then .done 0 [.err (Usage.run w.program)]
  else
    match r.file, r.code with
    | none, [] => .done 2 [.err (Usage.run w.program)]
    | none, parts => runCode w r (String.join parts)
    | some _, _ :: _ =>
        .done 2 [w.complain "cannot use positional code together with --file",
          .err (Usage.run w.program)]
    | some path, [] =>
        match w.read path with
        | .ok code => runCode w r code
        | .error problem =>
            .done 1 [w.complain ("failed to read code file as UTF-8: "
              ++ problem.message)]

/-- Write a program that prints a text. -/
def composed (text : String) : Reply :=
  .done 0 [.out (Composer.compose {} text ++ "\n")]

/-- Write a program that prints the operands, a file or the standard
    input. -/
def write (w : World) (r : WriteRequest) : Reply :=
  if r.help then .done 0 [.err (Usage.write w.program)]
  else
    match r.file, r.text with
    | some _, _ :: _ =>
        .done 2 [w.complain "cannot use positional TEXT together with --file",
          .err (Usage.write w.program)]
    | some path, [] =>
        match w.read path with
        | .ok text => composed text
        | .error problem =>
            .done 1 [w.complain ("failed to read file as UTF-8: "
              ++ problem.message)]
    | none, [] =>
        match textOf w.stdin with
        | .ok text => composed text
        | .error problem =>
            .done 1 [w.complain ("failed reading UTF-8 from stdin: "
              ++ problem.message)]
    | none, parts => composed (" ".intercalate parts)

/-- Take submissions, in the editor or from the standard input. -/
def repl (w : World) (r : ReplRequest) : Reply :=
  if r.help then .done 0 [.err (Usage.repl w.program)]
  else
    match Mode.choose r.mode (w.lookup? Mode.modeVariable) w.terminal with
    | .error refusal => .done 1 [w.complain refusal.message]
    | .ok mode =>
        let (limits, resolving) := w.limits r.timeoutMs r.maxSteps
        let session : Session := { limits, watch := w.watch }
        let before := Emission.logs resolving
        match mode with
        | .editor =>
            .editing (before ++ Editor.opening) session
              (w.lookup? "SCREWTAPE_REPL_ONCE" = some "1")
        | .bare =>
            match Script.submission? w.stdin with
            | none => .done 0 before
            | some text => .done 0 (before ++ Script.play session text)

/-- What is written about arguments that do not fit. -/
def misuse : String := "<usage error>"

/-- Carry out what the command line asks for. -/
def command (w : World) (args : List String) : Reply :=
  match request? args with
  | none => .done 2 [.err misuse]
  | some .help => .done 0 [.err (Usage.top w.program)]
  | some (.run r) => run w r
  | some (.write r) => write w r
  | some (.repl r) => repl w r

/-- The files a command may want to read. -/
def wanted (w : World) (args : List String) : List String :=
  let named :=
    match request? args with
    | some (.run r) => r.file.toList
    | some (.write r) => r.file.toList
    | _ => []
  named ++ w.settingsPath.toList

end TapeMachine.Console
