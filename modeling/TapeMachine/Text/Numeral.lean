/-! # Numerals — reading whole numbers

    A numeral is an optional sign and one or more ASCII digits, and
    nothing else.  Readers of a fixed width refuse a value outside it. -/

namespace TapeMachine.Text

/-- The value of a decimal digit. -/
def digit? (c : Char) : Option Nat :=
  if '0' ≤ c ∧ c ≤ '9' then some (c.toNat - '0'.toNat) else none

/-- The value of a hexadecimal digit of either case. -/
def hexDigit? (c : Char) : Option Nat :=
  if '0' ≤ c ∧ c ≤ '9' then some (c.toNat - '0'.toNat)
  else if 'a' ≤ c ∧ c ≤ 'f' then some (c.toNat - 'a'.toNat + 10)
  else if 'A' ≤ c ∧ c ≤ 'F' then some (c.toNat - 'A'.toNat + 10)
  else none

/-- Read digits that continue the number `n`. -/
def digitsFrom (base : Nat) (value? : Char → Option Nat) (n : Nat) :
    List Char → Option Nat
  | [] => some n
  | c :: rest =>
      match value? c with
      | none => none
      | some d => digitsFrom base value? (base * n + d) rest

/-- Read one or more digits. -/
def digits? (base : Nat) (value? : Char → Option Nat) :
    List Char → Option Nat
  | [] => none
  | c :: rest => digitsFrom base value? 0 (c :: rest)

/-- Read digits with an optional plus sign before them. -/
def unsigned? (base : Nat) (value? : Char → Option Nat) :
    List Char → Option Nat
  | '+' :: rest => digits? base value? rest
  | cs => digits? base value? cs

/-- Read a decimal number below 2 to the 64, with an optional plus
    sign. -/
def natural? (s : String) : Option Nat :=
  match unsigned? 10 digit? s.toList with
  | some n => if n < UInt64.size then some n else none
  | none => none

/-- Read a decimal number with an optional sign. -/
def signed? : List Char → Option Int
  | '-' :: rest => (digits? 10 digit? rest).map fun n => -(n : Int)
  | cs => (unsigned? 10 digit? cs).map Int.ofNat

/-- Read a decimal number that fits a 32-bit cell, with an optional
    sign. -/
def cell? (s : String) : Option Int32 :=
  match signed? s.toList with
  | some n => if -0x80000000 ≤ n ∧ n < 0x80000000 then some (Int32.ofInt n) else none
  | none => none

end TapeMachine.Text
