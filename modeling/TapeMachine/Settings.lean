import TapeMachine.Files
import TapeMachine.Palette
import TapeMachine.Toml.Document

/-! # Settings — what the user's document says

    The document may have a table of limits, one for the interactive
    mode and one of colours.  Tables and keys not known are passed over,
    and everything has a default.

    The tables with fixed keys may also be written as an array that
    gives their values in order, and a date-time in the place of a table
    counts as one without known keys. -/

namespace TapeMachine

/-- What can be set. -/
structure Settings where
  /-- The wall-clock time allowed, in milliseconds. -/
  timeoutMs : Option Nat := none
  /-- The number of steps allowed. -/
  maxSteps : Option Nat := none
  /-- How many submissions the editor remembers. -/
  historySize : Nat := 1000
  /-- Colours by the name of what they are for. -/
  colours : List (String × String) := []
deriving DecidableEq, Repr

namespace Settings

open Toml

/-- A number that is not negative. -/
def count? : Value → Option Nat
  | .integer n => if 0 ≤ n then some n.toNat else none
  | _ => none

/-- A text. -/
def text? : Value → Option String
  | .string s => some s
  | _ => none

/-- The values of a table's fixed keys, in order. -/
def fields? (keys : List String) : Value → Option (List (Option Value))
  | .table _ entries => some (keys.map (Entries.get? entries))
  | .array items => some (keys.zipIdx.map fun (_, i) => items[i]?)
  | .dateTime _ => some (keys.map fun _ => none)
  | _ => none

/-- Read an optional field, if it is there. -/
def optional? {α : Type} (read : Value → Option α) :
    Option Value → Option (Option α)
  | none => some none
  | some v => (read v).map some

/-- Read the table of limits. -/
def readLimits (s : Settings) (v : Value) : Option Settings :=
  match fields? ["timeout_ms", "max_steps"] v with
  | some [timeout, steps] =>
      match optional? count? timeout, optional? count? steps with
      | some timeoutMs, some maxSteps => some { s with timeoutMs, maxSteps }
      | _, _ => none
  | _ => none

/-- Read the table of the interactive mode. -/
def readInteractive (s : Settings) (v : Value) : Option Settings :=
  match fields? ["history_size"] v with
  | some [size] =>
      (optional? count? size).map fun size =>
        { s with historySize := size.getD s.historySize }
  | _ => none

/-- Read the table of colours. -/
def readColours (s : Settings) (v : Value) : Option Settings :=
  match v with
  | .table _ entries =>
      (entries.mapM fun (entry : String × Value) =>
        (text? entry.2).map fun text => (entry.1, text)).map
        fun colours => { s with colours }
  | .dateTime _ => some s
  | _ => none

/-- Read one table of the document, if it is there. -/
def readTable (root : Entries) (key : String)
    (read : Settings → Value → Option Settings) (s : Settings) :
    Option Settings :=
  match root.get? key with
  | none => some s
  | some v => read s v

/-- The settings written by a text, if it is a document that gives them
    properly. -/
def parse (text : String) : Option Settings := do
  let root ← Toml.parse text
  let s ← readTable root "limits" readLimits {}
  let s ← readTable root "repl" readInteractive s
  readTable root "colors" readColours s

/-- The palette with the colours of the settings. -/
def palette (s : Settings) : Palette := ({} : Palette).withColours s.colours

/-! ## Loading -/

/-- Why settings could not be loaded from a path. -/
inductive Problem where
  | unreadable (path : String) (problem : ReadProblem)
  | malformed (path : String)
deriving DecidableEq, Repr

/-- The problem in words. -/
def Problem.message : Problem → String
  | .unreadable path problem =>
      "failed to read " ++ path ++ ": " ++ problem.message
  | .malformed path => "failed to parse " ++ path ++ ": <toml error>"

/-- Load the settings from what was read at a path.  No file at all means
    the defaults. -/
def load (path : String) (text : Except ReadProblem String) :
    Except Problem Settings :=
  match text with
  | .ok text =>
      match parse text with
      | some settings => .ok settings
      | none => .error (.malformed path)
  | .error .notFound => .ok {}
  | .error problem => .error (.unreadable path problem)

end Settings

end TapeMachine
