import TapeMachine.Text.Pattern.Atom
import TapeMachine.Text.Pattern.Depth

/-! # Brackets — sets of characters

    Brackets hold the members of a set: single characters, ranges in
    ascending order, classes named by a letter or, between colons, by a
    word, and further sets in brackets.  A caret at the start takes the
    complement.  Doubled marks combine what stands before them with what
    stands after them.

    Hyphens at the start, and a closing bracket before anything else,
    are members and start no range. -/

namespace TapeMachine.Text.Pattern

/-- The names of classes between colons. -/
def classNames : List String :=
  ["alnum", "alpha", "ascii", "blank", "cntrl", "digit", "graph", "lower",
    "print", "punct", "space", "upper", "word", "xdigit"]

/-- Read a class between colons after its opening bracket: is it the
    complement, and what stands after it? -/
def namedClass? : List Char → Option (Bool × List Char)
  | ':' :: cs =>
      let negated := cs.head? == some '^'
      let cs := if negated then cs.drop 1 else cs
      let name := String.ofList (cs.takeWhile (· ≠ ':'))
      match cs.dropWhile (· ≠ ':') with
      | ':' :: ']' :: rest =>
          if classNames.contains name then some (negated, rest) else none
      | _ => none
  | _ => none

/-- The marks that combine sets when they are doubled. -/
def isOperator (c : Char) : Bool := c == '&' || c == '-' || c == '~'

/-- What is known of a set that is not closed. -/
structure Bracket where
  /-- Are we at its start, where hyphens are members? -/
  fresh : Bool := true
  /-- The depth of what stands before the last operator. -/
  left : Option Nat := none
  /-- The depths of the members after the last operator. -/
  members : List Nat := []
deriving DecidableEq, Repr

namespace Bracket

/-- Add a member of some depth. -/
def add (b : Bracket) (depth : Nat) : Bracket :=
  { b with fresh := false, members := depth :: b.members }

/-- The depth of what stands within the brackets so far. -/
def depth (b : Bracket) : Nat :=
  match b.left with
  | none => depthOfSequence b.members
  | some left => depthOfChoice [left, depthOfSequence b.members]

/-- Go on after an operator. -/
def operate (b : Bracket) : Bracket :=
  { fresh := false, left := some b.depth }

end Bracket

namespace Flags

/-- Read a character of a set, or what stands for one. -/
def member? (flags : Flags) : List Char → Option (Atom × List Char)
  | [] => none
  | '\\' :: cs => flags.escape? cs
  | c :: cs => some (.literal c false, cs)

/-- Is a range in ascending order, and are its ends members of a set? -/
def isRange (flags : Flags) : Atom → Atom → Bool
  | .literal low byte, .literal high byte' =>
      low ≤ high && (Atom.literal low byte).isMember flags
        && (Atom.literal high byte').isMember flags
  | _, _ => false

/-- Read a member of a set or a range, and return what stands after it.
    A hyphen before a closing bracket or before another hyphen makes no
    range. -/
def range? (flags : Flags) (cs : List Char) : Option (List Char) := do
  let (low, rest) ← flags.member? cs
  let rest := flags.skip rest
  let single := if low.isMember flags then some rest else none
  match rest with
  | '-' :: after =>
      let next := flags.peek? after
      if next = some ']' ∨ next = some '-' then single
      else
        let (high, rest) ← flags.member? (flags.skip after)
        if flags.isRange low high then some rest else none
  | _ => single

/-- Read what stands between the opening bracket of a set and its
    members, a caret or nothing. -/
def caret? (flags : Flags) (cs : List Char) : Option (List Char) :=
  match flags.skip cs with
  | '^' :: rest => if flags.characters then some rest else none
  | rest => some rest

/-- Is a class between colons a member of a set? -/
def hasClass (flags : Flags) (negated : Bool) : Bool :=
  if flags.characters then !flags.ignoresCase else !negated

/-- Read the members of a set and of those around it up to the bracket
    that closes the outermost.  The result is the depth of that and what
    stands after it. -/
def membersFrom? (flags : Flags) :
    Nat → Bracket → List Bracket → List Char → Option (Nat × List Char)
  | 0, _, _, _ => none
  | fuel + 1, b, outer, cs =>
      match flags.skip cs with
      | [] => none
      | c :: rest =>
          if b.fresh ∧ (c = '-' ∨ (c = ']' ∧ b.members.isEmpty)) then
            if (Atom.literal c false).isMember flags then
              flags.membersFrom? fuel { b.add 0 with fresh := c = '-' } outer
                rest
            else none
          else if c = ']' then
            match outer with
            | [] => some (b.depth + 1, rest)
            | around :: outer =>
                flags.membersFrom? fuel (around.add (b.depth + 1)) outer rest
          else if c = '[' then
            match namedClass? rest with
            | some (negated, rest) =>
                if flags.hasClass negated then
                  flags.membersFrom? fuel (b.add 0) outer rest
                else none
            | none =>
                match flags.caret? rest with
                | none => none
                | some rest => flags.membersFrom? fuel {} (b :: outer) rest
          else if isOperator c ∧ rest.head? = some c then
            flags.membersFrom? fuel b.operate outer (rest.drop 1)
          else
            match flags.range? (c :: rest) with
            | none => none
            | some rest => flags.membersFrom? fuel (b.add 0) outer rest

/-- Read a set after its opening bracket.  Each member takes at least
    one character. -/
def set? (flags : Flags) (cs : List Char) : Option (Nat × List Char) := do
  flags.membersFrom? cs.length {} [] (← flags.caret? cs)

end Flags

end TapeMachine.Text.Pattern
