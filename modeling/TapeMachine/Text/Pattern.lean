import TapeMachine.Text.Alphanumeric
import TapeMachine.Text.Pattern.Bracket

/-! # Patterns — well-formed regular expressions

    A pattern is read from left to right and refused at the first part
    that does not fit.

      * A repetition needs something to repeat, and a question mark
        right after it makes it reluctant; counts in braces are not
        known.
      * A group opens with a parenthesis, maybe with a name of its own
        or with flags, and has to be closed.
      * Flags in parentheses of their own last to the end of the group
        they stand in.
      * The parts may be nested only so deep. -/

namespace TapeMachine.Text.Pattern

/-- A part of a sequence. -/
structure Part where
  /-- How deep it is nested. -/
  depth : Nat
  /-- May a repetition follow?  Flags cannot be repeated. -/
  repeatable : Bool := true
deriving DecidableEq, Repr

/-- What stands in a group so far. -/
structure Level where
  /-- The depths of the alternatives that are complete. -/
  alternatives : List Nat := []
  /-- The parts of the last alternative, the last part first. -/
  parts : List Part := []
deriving DecidableEq, Repr

namespace Level

/-- Add a part. -/
def add (l : Level) (part : Part) : Level :=
  { l with parts := part :: l.parts }

/-- The depth of the last alternative. -/
def lastDepth (l : Level) : Nat := depthOfSequence (l.parts.map Part.depth)

/-- Start another alternative. -/
def alternate (l : Level) : Level :=
  { alternatives := l.lastDepth :: l.alternatives }

/-- The depth of all that stands in a group. -/
def depth (l : Level) : Nat :=
  if l.alternatives.isEmpty then l.lastDepth
  else depthOfChoice (l.lastDepth :: l.alternatives)

/-- Repeat the last part. -/
def repeat? (l : Level) : Option Level :=
  match l.parts with
  | [] => none
  | part :: parts =>
      if part.repeatable then
        some { l with parts := { depth := part.depth + 1 } :: parts }
      else none

end Level

/-- Where reading stands. -/
structure State where
  /-- The flags in force. -/
  flags : Flags := {}
  /-- What stands in the innermost group. -/
  level : Level := {}
  /-- What stands in the groups around it, with the flags to go back to
      when the group within is closed. -/
  outer : List (Level × Flags) := []
  /-- The names of groups. -/
  names : List (List Char) := []
  /-- What is to be read. -/
  rest : List Char
deriving DecidableEq, Repr

/-- May a character stand in the name of a group? -/
def isNameChar (first : Bool) (c : Char) : Bool :=
  if first then c == '_' || isAlphabetic c
  else c == '_' || c == '.' || c == '[' || c == ']' || isAlphanumeric c

/-- May this be the name of a group? -/
def isName : List Char → Bool
  | [] => false
  | c :: cs => isNameChar true c && cs.all (isNameChar false)

namespace State

/-- Go on after a part. -/
def add (s : State) (part : Part) (rest : List Char) : State :=
  { s with level := s.level.add part, rest }

/-- Open a group with flags of its own. -/
def openGroup (s : State) (flags : Flags) (rest : List Char) : State :=
  { s with flags, level := {}, outer := (s.level, s.flags) :: s.outer, rest }

/-- Close the innermost group. -/
def closeGroup? (s : State) (rest : List Char) : Option State :=
  match s.outer with
  | [] => none
  | (level, flags) :: outer =>
      let part : Part := { depth := s.level.depth + 1 }
      some { s with flags, level := level.add part, outer, rest }

/-- Read the name of a group, which no other group has. -/
def name? (s : State) (cs : List Char) : Option State :=
  let name := cs.takeWhile (· ≠ '>')
  match cs.dropWhile (· ≠ '>') with
  | [] => none
  | _ :: rest =>
      if isName name && !s.names.contains name then
        some { s.openGroup s.flags rest with names := name :: s.names }
      else none

/-- Read flags, for a group or for what follows. -/
def flags? (s : State) (cs : List Char) : Option State := do
  let given ← Pattern.flags? cs
  let flags := s.flags.update given.flags
  if given.forGroup then return s.openGroup flags given.rest
  else
    return { s.add { depth := 0, repeatable := false } given.rest with flags }

/-- Read what stands after an opening parenthesis. -/
def group? (s : State) (cs : List Char) : Option State :=
  match s.flags.skip cs with
  | '?' :: 'P' :: '<' :: rest => s.name? rest
  | '?' :: '<' :: rest => s.name? rest
  | '?' :: rest => s.flags? rest
  | rest => some (s.openGroup s.flags rest)

/-- Read a repetition, and the question mark that makes it reluctant. -/
def repeat? (s : State) (cs : List Char) : Option State := do
  let rest := if cs.head? = some '?' then cs.drop 1 else cs
  return { s with level := ← s.level.repeat?, rest }

/-- Read a set after its opening bracket. -/
def set? (s : State) (cs : List Char) : Option State := do
  let (depth, rest) ← s.flags.set? cs
  return s.add { depth } rest

/-- Take an atom as a part. -/
def atom? (s : State) (atom : Atom) (rest : List Char) : Option State :=
  if atom.isMatchable s.flags then some (s.add { depth := 0 } rest) else none

/-- Read the next part, which starts with the character `c`. -/
def next? (s : State) (c : Char) (cs : List Char) : Option State :=
  if c = '(' then s.group? cs
  else if c = ')' then s.closeGroup? cs
  else if c = '|' then some { s with level := s.level.alternate, rest := cs }
  else if c = '[' then s.set? cs
  else if c = '?' ∨ c = '*' ∨ c = '+' then s.repeat? cs
  else if c = '\x7b' then none
  else if c = '\\' then do
    let (atom, rest) ← s.flags.escape? cs
    s.atom? atom rest
  else if c = '.' then s.atom? .any cs
  else if c = '^' ∨ c = '$' then s.atom? .edge cs
  else s.atom? (.literal c false) cs

/-- Read all parts that are left. -/
def finish? : Nat → State → Option State
  | 0, _ => none
  | fuel + 1, s =>
      match s.flags.skip s.rest with
      | [] => some s
      | c :: cs =>
          match s.next? c cs with
          | none => none
          | some s => s.finish? fuel

/-- Is a pattern complete here, and not nested too deep? -/
def isComplete (s : State) : Bool :=
  s.outer.isEmpty && s.level.depth ≤ depthLimit

end State

/-- Is a text a pattern?  Each part takes at least one character. -/
def isWellFormed (text : List Char) : Bool :=
  (State.finish? (text.length + 1) { rest := text }).any State.isComplete

/-! ## Values

    A value is described by a pattern or by a number.  Of the numbers
    only those with a plus sign are no patterns. -/

/-- Is a text a number without a sign, maybe with a fraction and an
    exponent, or a name for infinity or for no number at all? -/
def isMagnitude (text : List Char) : Bool :=
  let name := String.ofList (text.map Char.toLower)
  let whole := text.takeWhile Char.isDigit
  let (fraction, rest) :=
    match text.dropWhile Char.isDigit with
    | '.' :: rest => (rest.takeWhile Char.isDigit, rest.dropWhile Char.isDigit)
    | rest => ([], rest)
  let exponent :=
    match rest with
    | [] => true
    | e :: rest =>
        let digits := if rest.head? = some '+' ∨ rest.head? = some '-' then
          rest.drop 1 else rest
        (e == 'e' || e == 'E') && !digits.isEmpty && digits.all Char.isDigit
  name == "inf" || name == "infinity" || name == "nan"
    || (!(whole ++ fraction).isEmpty && exponent)

/-- Does a text describe a value? -/
def describesValue (text : List Char) : Bool :=
  isWellFormed text ||
    match text with
    | '+' :: rest => isMagnitude rest
    | _ => false

end TapeMachine.Text.Pattern
