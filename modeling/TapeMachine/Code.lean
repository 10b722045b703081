/-! # Code — program text with its loops resolved

    A program is a text in which seven characters are commands and all
    others are comments.  Resolving it pairs every closing bracket with
    the nearest open one before it; the resolved code has one
    instruction per character, and a closing bracket carries the
    position of its partner.

      * `Code.ofText` refuses a text whose brackets do not pair up and
        names the bracket to blame: the first closing one without a
        partner, else the last opening one that is still open.
      * `Code.loops` lists the pairs found. -/

namespace TapeMachine

/-- One instruction of resolved code. -/
inductive Instr where
  | right
  | left
  | increment
  | decrement
  | print
  /-- The start of a loop; it only marks a position. -/
  | loopStart
  /-- The end of the loop that starts at the given position. -/
  | loopEnd (start : Nat)
  /-- A character that is no command. -/
  | comment (c : Char)
deriving DecidableEq, Repr

namespace Instr

/-- The instruction for a character other than a bracket. -/
def ofPlain (c : Char) : Instr :=
  if c = '>' then .right
  else if c = '<' then .left
  else if c = '+' then .increment
  else if c = '-' then .decrement
  else if c = '.' then .print
  else .comment c

/-- The character an instruction is written with. -/
def glyph : Instr → Char
  | .right => '>'
  | .left => '<'
  | .increment => '+'
  | .decrement => '-'
  | .print => '.'
  | .loopStart => '['
  | .loopEnd _ => ']'
  | .comment c => c

/-- The partner of a closing bracket. -/
def loopStart? : Instr → Option Nat
  | .loopEnd start => some start
  | _ => none

end Instr

/-- Which of the two brackets. -/
inductive Bracket where
  | opening
  | closing
deriving DecidableEq, Repr

/-- The bracket as written. -/
def Bracket.glyph : Bracket → Char
  | .opening => '['
  | .closing => ']'

/-- A bracket without a partner. -/
structure Unmatched where
  /-- Its position, counted in characters. -/
  position : Nat
  /-- Which bracket it is. -/
  bracket : Bracket
deriving DecidableEq, Repr

/-- Resolved code: one instruction per character of the text. -/
abbrev Code := Array Instr

namespace Code

/-- Resolve the rest of a text after the instructions `done`, where
    `pending` holds the positions of the loops still open, innermost
    first. -/
def resolve : List Char → (pending : List Nat) → (done : Code) →
    Except Unmatched Code
  | [], [], done => .ok done
  | [], start :: _, _ => .error ⟨start, .opening⟩
  | c :: rest, pending, done =>
      if c = '[' then
        resolve rest (done.size :: pending) (done.push .loopStart)
      else if c = ']' then
        match pending with
        | [] => .error ⟨done.size, .closing⟩
        | start :: outer => resolve rest outer (done.push (.loopEnd start))
      else
        resolve rest pending (done.push (.ofPlain c))

/-- Resolve a whole text. -/
def ofChars (text : List Char) : Except Unmatched Code :=
  resolve text [] #[]

/-- Resolve a whole text. -/
def ofText (text : String) : Except Unmatched Code :=
  ofChars text.toList

/-- The pairs (closing position, opening position), by closing
    position. -/
def loops (code : Code) : List (Nat × Nat) :=
  code.toList.zipIdx.filterMap fun (i, position) =>
    i.loopStart?.map fun start => (position, start)

end Code

end TapeMachine
