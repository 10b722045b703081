import TapeMachine.Cell
import TapeMachine.Console.Grammar
import TapeMachine.Mode
import TapeMachine.Text.Numeral

/-! # Arguments — what the command line asks for

    The command line names one of three commands, each with options of
    its own, or none, which means the interactive one.  Arguments that
    do not fit are refused as a whole. -/

namespace TapeMachine.Console

/-- The options of all commands. -/
inductive Key where
  | help
  | debug
  | file
  | tape
  | showTape
  | timeout
  | maxSteps
  | bare
  | editor
deriving DecidableEq, Repr

/-- The option that asks for help. -/
def helpChoice : Choice Key :=
  { key := .help, letter := some 'h', name := "help" }

/-- The option that names a file. -/
def fileChoice : Choice Key :=
  { key := .file, letter := some 'f', name := "file", valued := true }

/-- The option for the time allowed. -/
def timeoutChoice : Choice Key :=
  { key := .timeout, name := "timeout", valued := true }

/-- The option for the number of steps allowed. -/
def maxStepsChoice : Choice Key :=
  { key := .maxSteps, name := "max-steps", valued := true }

/-- The arguments of the program itself. -/
def topGrammar : Grammar Key where
  choices := [helpChoice]
  commands := ["run", "write", "repl"]

/-- The arguments of `run`. -/
def runGrammar : Grammar Key where
  choices := [
    { key := .debug, letter := some 'd', name := "debug" },
    fileChoice,
    { key := .tape, letter := some 't', name := "tape", valued := true
      anyValue := true, repeats := true },
    { key := .showTape, name := "show-tape" },
    timeoutChoice, maxStepsChoice, helpChoice]
  operands := .hyphened

/-- The arguments of `write`. -/
def writeGrammar : Grammar Key where
  choices := [fileChoice, helpChoice]
  operands := .plain

/-- The arguments of `repl`. -/
def replGrammar : Grammar Key where
  choices := [
    { key := .bare, name := "bare" }, { key := .editor, name := "editor" },
    timeoutChoice, maxStepsChoice, helpChoice]

/-- What `run` is asked to do. -/
structure RunRequest where
  debug : Bool := false
  file : Option String := none
  code : List String := []
  tape : Option (List Cell) := none
  showTape : Bool := false
  timeoutMs : Option Nat := none
  maxSteps : Option Nat := none
  help : Bool := false
deriving DecidableEq, Repr

/-- What `write` is asked to do. -/
structure WriteRequest where
  file : Option String := none
  text : List String := []
  help : Bool := false
deriving DecidableEq, Repr

/-- What `repl` is asked to do. -/
structure ReplRequest where
  mode : Option Mode := none
  timeoutMs : Option Nat := none
  maxSteps : Option Nat := none
  help : Bool := false
deriving DecidableEq, Repr

/-- What the command line asks for. -/
inductive Request where
  | help
  | run (r : RunRequest)
  | write (r : WriteRequest)
  | repl (r : ReplRequest)
deriving DecidableEq, Repr

/-- The number given by an option, if it is given. -/
def number? (f : Found Key) (key : Key) : Option (Option Nat) :=
  match f.value? key with
  | none => some none
  | some text => (Text.natural? text).map some

/-- The cells given by an option, with commas between them. -/
def cells? (f : Found Key) (key : Key) : Option (Option (List Cell)) :=
  if f.has key then
    (((f.values key).flatMap fun text =>
      (text.toList.splitOn ',').map String.ofList).mapM Text.cell?).map some
  else some none

/-- Read the arguments of `run`. -/
def runRequest? (args : List String) : Option RunRequest := do
  let f ← runGrammar.parse args
  let tape ← cells? f .tape
  let timeoutMs ← number? f .timeout
  let maxSteps ← number? f .maxSteps
  return { debug := f.has .debug, file := f.value? .file, code := f.operands
           tape, showTape := f.has .showTape, timeoutMs, maxSteps
           help := f.has .help }

/-- Read the arguments of `write`. -/
def writeRequest? (args : List String) : Option WriteRequest := do
  let f ← writeGrammar.parse args
  return { file := f.value? .file, text := f.operands, help := f.has .help }

/-- Read the arguments of `repl`; the two modes exclude each other. -/
def replRequest? (args : List String) : Option ReplRequest := do
  let f ← replGrammar.parse args
  let timeoutMs ← number? f .timeout
  let maxSteps ← number? f .maxSteps
  let mode ←
    match f.has .bare, f.has .editor with
    | true, true => none
    | true, false => some (some Mode.bare)
    | false, true => some (some Mode.editor)
    | false, false => some none
  return { mode, timeoutMs, maxSteps, help := f.has .help }

/-- Read the arguments of a command. -/
def commandRequest? (name : String) (args : List String) : Option Request :=
  if name = "run" then (runRequest? args).map .run
  else if name = "write" then (writeRequest? args).map .write
  else (replRequest? args).map .repl

/-- Read the whole command line.  The arguments of a command have to fit
    even if help is asked for before it. -/
def request? (args : List String) : Option Request := do
  let f ← topGrammar.parse args
  let r ←
    match f.command with
    | none => some (.repl {})
    | some (name, rest) => commandRequest? name rest
  return if f.has .help then .help else r

end TapeMachine.Console
