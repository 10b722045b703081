import TapeMachine.Text.Blank

/-! # Flags — how a pattern is read

    Flags are letters, and those after a hyphen are taken away.  Three
    of them bear on what is a pattern:

      * `i` disregards case;
      * `u`, which holds from the start, matches characters and not
        bytes;
      * `x` is for patterns with explanations: blanks between the parts
        of a pattern count for nothing, and a number sign starts a
        comment that lasts to the end of its line. -/

namespace TapeMachine.Text.Pattern

/-- The flags that bear on what is a pattern. -/
structure Flags where
  /-- Is case disregarded? -/
  ignoresCase : Bool := false
  /-- Are characters matched?  Otherwise bytes are. -/
  characters : Bool := true
  /-- Do blanks and comments count for nothing? -/
  explained : Bool := false
deriving DecidableEq, Repr

/-- May this letter be a flag? -/
def isFlag (c : Char) : Bool := "imsUuRx".toList.contains c

/-- Drop blanks and comments up to the next character that counts; do
    we start within a comment? -/
def dropExplanation : Bool → List Char → List Char
  | _, [] => []
  | true, c :: cs => dropExplanation (c ≠ '\n') cs
  | false, c :: cs =>
      if isBlank c then dropExplanation false cs
      else if c = '#' then dropExplanation true cs
      else c :: cs

/-- The first character that is neither a blank nor the first number
    sign; was the number sign met before? -/
def firstMark? : Bool → List Char → Option Char
  | _, [] => none
  | met, c :: cs =>
      if isBlank c then firstMark? met cs
      else if c = '#' ∧ !met then firstMark? true cs
      else some c

namespace Flags

/-- Drop what counts for nothing. -/
def skip (flags : Flags) (cs : List Char) : List Char :=
  if flags.explained then dropExplanation false cs else cs

/-- The character that decides about a hyphen before it.  A comment is
    looked through for its first mark. -/
def peek? (flags : Flags) (cs : List Char) : Option Char :=
  if flags.explained then (firstMark? false cs).or cs.head? else cs.head?

/-- The flags after some are given, each with whether it is set. -/
def update (flags : Flags) (given : List (Char × Bool)) : Flags where
  ignoresCase := (given.lookup 'i').getD flags.ignoresCase
  characters := (given.lookup 'u').getD flags.characters
  explained := (given.lookup 'x').getD flags.explained

end Flags

/-- Flags that were read. -/
structure Given where
  /-- Each flag, with whether it is set. -/
  flags : List (Char × Bool)
  /-- Are they for a group that starts here?  Otherwise they are for
      what follows. -/
  forGroup : Bool
  /-- What stands after them. -/
  rest : List Char
deriving DecidableEq, Repr

/-- Read flags up to a colon or a closing parenthesis.  No flag and no
    hyphen comes twice, and the hyphen takes something away: was there a
    hyphen, and was it the last character? -/
def flagsFrom? (given : List (Char × Bool)) (hyphen last : Bool) :
    List Char → Option Given
  | [] => none
  | c :: cs =>
      if c = ':' then
        if last then none else some ⟨given, true, cs⟩
      else if c = ')' then
        if last || given.isEmpty then none else some ⟨given, false, cs⟩
      else if c = '-' then
        if hyphen then none else flagsFrom? given true true cs
      else if isFlag c && (given.lookup c).isNone then
        flagsFrom? ((c, !hyphen) :: given) hyphen false cs
      else none

/-- Read flags. -/
def flags? (cs : List Char) : Option Given := flagsFrom? [] false false cs

end TapeMachine.Text.Pattern
