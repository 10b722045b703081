import TapeMachine.Text.Numeral
import TapeMachine.Text.Pattern.Flags

/-! # Atoms — the smallest parts of a pattern

    An atom is a character, given by itself, by its name or by its code;
    a point; a place, such as the end of a line; or a class of characters
    named by a letter.  A backslash takes the meaning from a punctuation
    mark and gives one to a letter.

    There are no tables of character properties here.  What would need
    one is refused: a match of characters without regard to case, their
    classes, and the edges of words.  Nor is a match ever a part of a
    character, so what could be one among bytes is refused as well. -/

namespace TapeMachine.Text.Pattern

/-- A smallest part of a pattern. -/
inductive Atom where
  /-- A character; was it given by the code of a byte? -/
  | literal (c : Char) (byte : Bool)
  /-- Anything. -/
  | any
  /-- The start or the end of a line or of the whole text. -/
  | edge
  /-- The start or the end of a word. -/
  | wordEdge
  /-- Digits, blanks or the characters of words, or all others. -/
  | kind (negated : Bool)
deriving DecidableEq, Repr

/-- Marks that a backslash makes stand for themselves. -/
def isMark (c : Char) : Bool :=
  c.toNat < 0x80 && !c.isAlphanum && c ≠ '<' && c ≠ '>'

/-- The control character named by a letter. -/
def control? (c : Char) : Option Char :=
  if c = 'a' then some '\x07'
  else if c = 'f' then some '\x0c'
  else if c = 'n' then some '\n'
  else if c = 'r' then some '\r'
  else if c = 't' then some '\t'
  else if c = 'v' then some '\x0b'
  else none

/-- The number of digits in a code introduced by a letter. -/
def codeLength? (c : Char) : Option Nat :=
  if c = 'x' then some 2
  else if c = 'u' then some 4
  else if c = 'U' then some 8
  else none

/-- The character with a code, unless the code is no character's. -/
def ofCode? (n : Nat) : Option Char :=
  if n.isValidChar then some (Char.ofNat n) else none

namespace Flags

/-- Read the digits of a code that are missing, and what may be skipped
    after each. -/
def code? (flags : Flags) : Nat → Nat → List Char → Option (Nat × List Char)
  | 0, value, cs => some (value, cs)
  | _ + 1, _, [] => none
  | missing + 1, value, c :: cs =>
      match hexDigit? c with
      | none => none
      | some d => flags.code? missing (value * 16 + d) (flags.skip cs)

/-- Read what stands after a backslash. -/
def escape? (flags : Flags) : List Char → Option (Atom × List Char)
  | [] => none
  | c :: cs =>
      match codeLength? c with
      | some digits => do
          let (value, rest) ← flags.code? digits 0 (flags.skip cs)
          return (.literal (← ofCode? value) (c == 'x'), rest)
      | none =>
          if isMark c then some (.literal c false, cs)
          else if "dsw".toList.contains c then some (.kind false, cs)
          else if "DSW".toList.contains c then some (.kind true, cs)
          else if "Az".toList.contains c then some (.edge, cs)
          else if "bB<>".toList.contains c then some (.wordEdge, cs)
          else (control? c).map fun control => (.literal control false, cs)

end Flags

namespace Atom

/-- Can an atom be matched by itself? -/
def isMatchable (flags : Flags) : Atom → Bool
  | literal c byte =>
      if flags.characters then !flags.ignoresCase
      else !byte || c.toNat < 0x80
  | any => flags.characters
  | edge => true
  | wordEdge => !flags.characters
  | kind negated => !flags.characters && !negated

/-- Can an atom be a member of a set?  Sets of bytes are of ASCII. -/
def isMember (flags : Flags) : Atom → Bool
  | literal c _ =>
      if flags.characters then !flags.ignoresCase else c.toNat < 0x80
  | kind negated => !flags.characters && !negated
  | any | edge | wordEdge => false

end Atom

end TapeMachine.Text.Pattern
