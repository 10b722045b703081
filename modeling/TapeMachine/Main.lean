import TapeMachine.Console.Command

/-! # The program — the command line in the real world

    Everything is decided by `Console.command`.  This module gathers
    what the command wants to see and writes what it replies. -/

namespace TapeMachine

/-- The reading problem meant by a failure of the system. -/
def problemOf : IO.Error → ReadProblem
  | .noFileOrDirectory _ _ _ => .notFound
  | .inappropriateType _ 20 _ => .notADirectory
  | .inappropriateType _ _ _ => .isDirectory
  | e => .other (toString e)

/-- Read a file. -/
def readFile (path : String) : IO (Except ReadProblem String) := do
  try
    let bytes ← IO.FS.readBinFile path
    return textOf bytes
  catch e => return .error (problemOf e)

/-- The variables the program looks at. -/
def knownVariables : List String :=
  ["SCREWTAPE_LOG", "SCREWTAPE_CONFIG", "XDG_CONFIG_HOME", "HOME",
    Limits.timeoutVariable, Limits.maxStepsVariable, Mode.modeVariable,
    "SCREWTAPE_REPL_ONCE"]

/-- The known variables that are set. -/
def readEnviron : IO (List (String × String)) := do
  let pairs ← knownVariables.mapM fun name => do
    return (← IO.getEnv name).map fun value => (name, value)
  return pairs.filterMap id

/-- Write emissions to the two outputs. -/
def emit (filter : Filter) (es : List Emission) : IO Unit := do
  IO.print (Emission.stdout es)
  IO.eprint (Emission.stderr filter es)
  (← IO.getStdout).flush
  (← IO.getStderr).flush

/-- Answer lines typed at a terminal, one submission a line. -/
partial def edit (filter : Filter) (once : Bool) (s : Session) : IO Unit := do
  let line ← (← IO.getStdin).getLine
  if line.isEmpty then emit filter Editor.farewell
  else
    let a := Editor.answer once s line
    emit filter a.written
    unless a.ends do edit filter once a.session

end TapeMachine

open TapeMachine in
/-- Run the program. -/
def main (args : List String) : IO UInt32 := do
  let environ ← readEnviron
  let stdin ← IO.getStdin
  let terminal ← stdin.isTty
  let blind : Console.World :=
    { program := "screwtape", environ, read := fun _ => .error .notFound
      stdin := .empty, terminal }
  let files ← (Console.wanted blind args).mapM fun path => do
    return (path, ← readFile path)
  let bytes ← if terminal then pure .empty else stdin.readBinToEnd
  let world : Console.World :=
    { blind with
      stdin := bytes
      read := fun path => (files.lookup path).getD (.error .notFound) }
  match Console.command world args with
  | .done code written =>
      emit world.filter written
      return code.toUInt32
  | .editing written session once =>
      emit world.filter written
      edit world.filter once session
      return 0
