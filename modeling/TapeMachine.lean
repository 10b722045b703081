import TapeMachine.Caret
import TapeMachine.Cell
import TapeMachine.Code
import TapeMachine.Composer
import TapeMachine.Console.Arguments
import TapeMachine.Console.Command
import TapeMachine.Console.Grammar
import TapeMachine.Console.Usage
import TapeMachine.Editor
import TapeMachine.Emission
import TapeMachine.Execution
import TapeMachine.Fault
import TapeMachine.Files
import TapeMachine.Filter
import TapeMachine.Highlight
import TapeMachine.Limits
import TapeMachine.Log
import TapeMachine.Machine
import TapeMachine.Main
import TapeMachine.Memory
import TapeMachine.MetaCommand
import TapeMachine.Mode
import TapeMachine.Palette
import TapeMachine.Run
import TapeMachine.Script
import TapeMachine.Session
import TapeMachine.Settings
import TapeMachine.Tape
import TapeMachine.Text.Alphabetic
import TapeMachine.Text.Alphanumeric
import TapeMachine.Text.Blank
import TapeMachine.Text.Lines
import TapeMachine.Text.Numeral
import TapeMachine.Text.Pattern
import TapeMachine.Text.Pattern.Atom
import TapeMachine.Text.Pattern.Bracket
import TapeMachine.Text.Pattern.Depth
import TapeMachine.Text.Pattern.Flags
import TapeMachine.Text.Quoted
import TapeMachine.Text.Ranges
import TapeMachine.Text.Unprintable
import TapeMachine.Toml.Document
import TapeMachine.Toml.Scalar
import TapeMachine.Toml.Value
import TapeMachine.Trace
import TapeMachine.Proofs.Block
import TapeMachine.Proofs.Runs
import TapeMachine.Proofs.Structured
import TapeMachine.Proofs.Composer.Printing
import TapeMachine.LinkedTape
import TapeMachine.Proofs.Line
import TapeMachine.Proofs.LinkedTape.Layout
import TapeMachine.Proofs.LinkedTape.Links
import TapeMachine.Proofs.Brackets
import TapeMachine.Proofs.Control
import TapeMachine.Proofs.Tracing
import TapeMachine.Proofs.Bounded.Race
import TapeMachine.Proofs.Bounded.Service
import TapeMachine.Proofs.Comments
import TapeMachine.Proofs.Endless
import TapeMachine.Proofs.Script.Lines
import TapeMachine.Proofs.Sequence
import TapeMachine.Proofs.Script.Agreement
import TapeMachine.Proofs.Blame
import TapeMachine.Proofs.Budget
import TapeMachine.Proofs.Counting
import TapeMachine.Proofs.Summary
import TapeMachine.Proofs.LinkedTape.Interpreter
import TapeMachine.Proofs.Composer.Length
import TapeMachine.Proofs.Composer.Shortest
import TapeMachine.Proofs.Excursion
import TapeMachine.Proofs.Locality
import TapeMachine.Proofs.Caret
import TapeMachine.Proofs.Script.Split
import TapeMachine.Proofs.Highlight
import TapeMachine.Proofs.Sifting
import TapeMachine.Proofs.Script.Newlines
import TapeMachine.Proofs.Jumps
import TapeMachine.Proofs.Limits
import TapeMachine.Proofs.Colours
