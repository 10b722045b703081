import TapeMachine.Text.Unprintable

/-! # Quoted text — characters and strings between quotes

    Inside quotes the quote itself and the backslash follow a backslash,
    NUL, tab, carriage return and newline have letters of their own, and
    a character without a picture is given by its code point in
    hexadecimal.  A character stands between single quotes and a string
    between double quotes; each escapes only its own kind of quote. -/

namespace TapeMachine.Text.Quoted

/-- The digits of a number in lower-case hexadecimal. -/
def hex (n : Nat) : List Char := Nat.toDigits 16 n

/-- A character as written between the given quotes. -/
def escape (quote c : Char) : List Char :=
  if c = '\x00' then ['\\', '0']
  else if c = '\t' then ['\\', 't']
  else if c = '\r' then ['\\', 'r']
  else if c = '\n' then ['\\', 'n']
  else if c = '\\' ∨ c = quote then ['\\', c]
  else if isUnprintable c then
    ['\\', 'u', '\x7b'] ++ hex c.toNat ++ ['\x7d']
  else [c]

/-- A character between single quotes. -/
def char (c : Char) : String :=
  String.ofList ('\'' :: escape '\'' c ++ ['\''])

/-- A string between double quotes. -/
def string (s : String) : String :=
  String.ofList ('"' :: s.toList.flatMap (escape '"') ++ ['"'])

end TapeMachine.Text.Quoted
