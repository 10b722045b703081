import TapeMachine.Text.Numeral
import TapeMachine.Toml.Value

/-! # TOML scalars — strings, numbers and dates

    Strings are read character by character by a small machine, so that
    escapes of any length need no looking ahead.  Every other scalar is
    a run of letters, digits and a few signs; since none of these may
    follow a scalar directly, the run is taken whole and then classified.

    Line ends are expected as single newlines. -/

namespace TapeMachine.Toml

open Text

/-! ## Characters -/

/-- May a comment or a literal string hold this character?  Of the
    control characters only the tab. -/
def isPlain (c : Char) : Bool :=
  c == '\t' || (0x20 ≤ c.toNat && c.toNat ≠ 0x7F)

/-- A space or a tab. -/
def isGap (c : Char) : Bool := c == ' ' || c == '\t'

/-- May a bare key hold this character? -/
def isBareKey (c : Char) : Bool :=
  c.isAlphanum || c == '-' || c == '_'

/-- The character meant by a letter after a backslash. -/
def escaped? (c : Char) : Option Char :=
  match c with
  | 'b' => some '\x08'
  | 't' => some '\t'
  | 'n' => some '\n'
  | 'f' => some '\x0c'
  | 'r' => some '\r'
  | '"' => some '"'
  | '\\' => some '\\'
  | _ => none

/-- The character with a code point. -/
def codePoint? (n : Nat) : Option Char :=
  if n.isValidChar then some (Char.ofNat n) else none

/-! ## Strings on one line -/

/-- Where the reader of a string stands. -/
inductive Place where
  /-- Between characters. -/
  | between
  /-- After a backslash. -/
  | escape
  /-- In an escape with so many digits to come. -/
  | code (digits value : Nat)
  /-- After so many quotes in a row. -/
  | quotes (n : Nat)
  /-- After a backslash and blanks; a newline has to follow. -/
  | lineEnd
  /-- Passing blanks and newlines after an escaped newline. -/
  | passing
deriving DecidableEq, Repr

/-- One character of an escape: the new place, and the characters read
    so far, newest first. -/
def escapeStep (place : Place) (done : List Char) (c : Char) :
    Option (Place × List Char) :=
  match place with
  | .escape =>
      if c = 'u' then some (.code 4 0, done)
      else if c = 'U' then some (.code 8 0, done)
      else (escaped? c).map fun e => (.between, e :: done)
  | .code digits value =>
      match hexDigit? c with
      | none => none
      | some d =>
          if digits ≤ 1 then
            (codePoint? (16 * value + d)).map fun e => (.between, e :: done)
          else some (.code (digits - 1) (16 * value + d), done)
  | _ => none

/-- The rest of a string between double quotes. -/
def basicFrom (place : Place) (done : List Char) :
    List Char → Option (String × List Char)
  | [] => none
  | c :: rest =>
      if place = .between then
        if c = '"' then some (String.ofList done.reverse, rest)
        else if c = '\\' then basicFrom .escape done rest
        else if isPlain c then basicFrom .between (c :: done) rest
        else none
      else
        match escapeStep place done c with
        | some (place, done) => basicFrom place done rest
        | none => none

/-- The rest of a string between single quotes. -/
def literalFrom (done : List Char) :
    List Char → Option (String × List Char)
  | [] => none
  | c :: rest =>
      if c = '\'' then some (String.ofList done.reverse, rest)
      else if isPlain c then literalFrom (c :: done) rest
      else none

/-! ## Strings on several lines

    Three quotes end such a string, and up to two more may stand before
    them as its last characters. -/

/-- A character of the text of a string on several lines, where quotes
    and backslashes have been dealt with. -/
def textStep (done : List Char) (c : Char) : Option (Place × List Char) :=
  if c = '\n' ∨ isPlain c then some (.between, c :: done) else none

/-- One character of a string between triple double quotes, other than
    a quote. -/
def multiBasicStep (place : Place) (done : List Char) (c : Char) :
    Option (Place × List Char) :=
  let outside (done : List Char) : Option (Place × List Char) :=
    if c = '\\' then some (.escape, done) else textStep done c
  match place with
  | .between => outside done
  | .quotes n => outside (List.replicate n '"' ++ done)
  | .passing =>
      if isGap c ∨ c = '\n' then some (.passing, done) else outside done
  | .lineEnd =>
      if isGap c then some (.lineEnd, done)
      else if c = '\n' then some (.passing, done)
      else none
  | .escape =>
      if c = '\n' then some (.passing, done)
      else if isGap c then some (.lineEnd, done)
      else escapeStep .escape done c
  | .code digits value => escapeStep (.code digits value) done c

/-- The place after one more quote in a string between triple quotes;
    none where a quote cannot stand.  A quote after a backslash is no
    such quote. -/
def quoteStep (place : Place) : Option Place :=
  match place with
  | .between => some (.quotes 1)
  | .passing => some (.quotes 1)
  | .quotes n => some (.quotes (n + 1))
  | _ => none

/-- The rest of a string between triple quotes of the kind `quote`. -/
def multiFrom (quote : Char)
    (step : Place → List Char → Char → Option (Place × List Char))
    (place : Place) (done : List Char) :
    List Char → Option (String × List Char)
  | [] =>
      match place with
      | .quotes n =>
          if 3 ≤ n then
            some (String.ofList (List.replicate (n - 3) quote ++ done).reverse, [])
          else none
      | _ => none
  | c :: rest =>
      if c = quote ∧ place ≠ .escape then
        match quoteStep place with
        | some (.quotes n) =>
            if n = 5 then
              some (String.ofList (quote :: quote :: done).reverse, rest)
            else multiFrom quote step (.quotes n) done rest
        | _ => none
      else
        match place with
        | .quotes n =>
            if 3 ≤ n then
              some (String.ofList (List.replicate (n - 3) quote ++ done).reverse,
                c :: rest)
            else
              match step place done c with
              | some (place, done) => multiFrom quote step place done rest
              | none => none
        | _ =>
            match step place done c with
            | some (place, done) => multiFrom quote step place done rest
            | none => none

/-- One character of a string between triple single quotes, other than a
    quote. -/
def multiLiteralStep (place : Place) (done : List Char) (c : Char) :
    Option (Place × List Char) :=
  match place with
  | .quotes n => textStep (List.replicate n '\'' ++ done) c
  | _ => textStep done c

/-- Drop one newline at the start. -/
def dropNewline : List Char → List Char
  | '\n' :: rest => rest
  | cs => cs

/-- Read a string of any kind. -/
def string? : List Char → Option (String × List Char)
  | '"' :: '"' :: '"' :: rest =>
      multiFrom '"' multiBasicStep .between [] (dropNewline rest)
  | '\'' :: '\'' :: '\'' :: rest =>
      multiFrom '\'' multiLiteralStep .between [] (dropNewline rest)
  | '"' :: rest => basicFrom .between [] rest
  | '\'' :: rest => literalFrom [] rest
  | _ => none

/-! ## Numbers -/

/-- The digits of a number in which single underscores may stand between
    digits; `after` tells whether a digit came just before. -/
def ungroupedFrom (isDigit : Char → Bool) (after : Bool) :
    List Char → Option (List Char)
  | [] => if after then some [] else none
  | c :: rest =>
      if isDigit c then
        (ungroupedFrom isDigit true rest).map (c :: ·)
      else if c = '_' ∧ after then ungroupedFrom isDigit false rest
      else none

/-- The digits of a number with its underscores taken out. -/
def ungrouped (isDigit : Char → Bool) (cs : List Char) :
    Option (List Char) :=
  ungroupedFrom isDigit false cs

/-- Cut off a sign: is it a minus, and what follows. -/
def unsign : List Char → Bool × List Char
  | '-' :: rest => (true, rest)
  | '+' :: rest => (false, rest)
  | cs => (false, cs)

/-- The digits of a decimal number without needless zeros in front. -/
def decimal? (cs : List Char) : Option (List Char) :=
  match cs with
  | ['0'] => some ['0']
  | '0' :: _ => none
  | cs => ungrouped Char.isDigit cs

/-- The value of digits. -/
def valueOf (base : Nat) (cs : List Char) : Nat :=
  cs.foldl (fun n c => base * n + (hexDigit? c).getD 0) 0

/-- Does a whole number fit 64 bits with a sign? -/
def fits (n : Int) : Bool := -0x8000000000000000 ≤ n && n < 0x8000000000000000

/-- An integer, if it is one and fits. -/
def integer? (cs : List Char) : Option Int :=
  let inBase (base : Nat) (isDigit : Char → Bool) (cs : List Char) :=
    (ungrouped isDigit cs).map fun ds => (valueOf base ds : Int)
  let n? : Option Int :=
    match cs with
    | '0' :: 'x' :: rest => inBase 16 (fun c => (hexDigit? c).isSome) rest
    | '0' :: 'o' :: rest => inBase 8 (fun c => '0' ≤ c && c ≤ '7') rest
    | '0' :: 'b' :: rest => inBase 2 (fun c => c == '0' || c == '1') rest
    | cs =>
        let (negative, rest) := unsign cs
        (decimal? rest).map fun ds =>
          if negative then -(valueOf 10 ds : Int) else (valueOf 10 ds : Int)
  n?.filter fits

/-- Is a decimal fraction, given by its digits and the power of ten they
    are to be multiplied with, too large for a 64-bit float?  The largest
    float and half a unit of its last place are the bound, which lies
    between the powers 308 and 309 of ten. -/
def overflows (digits : List Char) (power : Int) : Bool :=
  let ds := digits.dropWhile (· == '0')
  let bound : Nat := Nat.pow 2 1024 - Nat.pow 2 970
  let places : Int := ds.length + power
  if ds.isEmpty ∨ places ≤ 308 then false
  else if 310 ≤ places then true
  else if 0 ≤ power then bound ≤ valueOf 10 ds * Nat.pow 10 power.toNat
  else bound * Nat.pow 10 (-power).toNat ≤ valueOf 10 ds

/-- Is a text a float?  It has a fraction, an exponent or both, or it is
    one of the special ones; a positive one must not be too large. -/
def isFloat (cs : List Char) : Bool :=
  let (negative, rest) := unsign cs
  let isExponent (c : Char) : Bool := c == 'e' || c == 'E'
  if rest = ['i', 'n', 'f'] ∨ rest = ['n', 'a', 'n'] then true
  else
    let (whole, tail) := rest.span (fun c => c ≠ '.' && !isExponent c)
    let (fraction, exponent) := tail.span (fun c => !isExponent c)
    let fraction? : Option (List Char) :=
      match fraction with
      | '.' :: ds => ungrouped Char.isDigit ds
      | _ => some []
    let exponent? : Option Int :=
      match exponent with
      | _ :: signed =>
          let (down, ds) := unsign signed
          (ungrouped Char.isDigit ds).map fun ds =>
            if down then -(valueOf 10 ds : Int) else (valueOf 10 ds : Int)
      | [] => some 0
    match decimal? whole, fraction?, exponent? with
    | some ws, some fs, some power =>
        !tail.isEmpty &&
          (negative || !overflows (ws ++ fs) (power - fs.length))
    | _, _, _ => false

/-! ## Dates and times -/

/-- A number of exactly two digits within bounds, and what follows. -/
def twoDigits? (low high : Nat) : List Char → Option (Nat × List Char)
  | a :: b :: rest =>
      match digits? 10 digit? [a, b] with
      | some n => if low ≤ n ∧ n ≤ high then some (n, rest) else none
      | none => none
  | _ => none

/-- The number of days in a month. -/
def daysIn (year month : Nat) : Nat :=
  if month = 2 then
    if year % 4 = 0 ∧ (year % 100 ≠ 0 ∨ year % 400 = 0) then 29 else 28
  else if month = 4 ∨ month = 6 ∨ month = 9 ∨ month = 11 then 30
  else 31

/-- What follows a date. -/
def date? : List Char → Option (List Char)
  | a :: b :: c :: d :: '-' :: rest =>
      match digits? 10 digit? [a, b, c, d], twoDigits? 1 12 rest with
      | some year, some (month, '-' :: rest) =>
          (twoDigits? 1 (daysIn year month) rest).map Prod.snd
      | _, _ => none
  | _ => none

/-- What follows a time of day. -/
def time? (cs : List Char) : Option (List Char) :=
  match twoDigits? 0 23 cs with
  | some (_, ':' :: rest) =>
      match twoDigits? 0 59 rest with
      | some (_, ':' :: rest) =>
          match twoDigits? 0 60 rest with
          | some (_, '.' :: rest) =>
              if (rest.takeWhile Char.isDigit).isEmpty then none
              else some (rest.dropWhile Char.isDigit)
          | some (_, rest) => some rest
          | none => none
      | _ => none
  | _ => none

/-- Is a text nothing, or the distance from universal time? -/
def isOffset : List Char → Bool
  | [] => true
  | ['Z'] => true
  | ['z'] => true
  | c :: rest =>
      if c = '+' ∨ c = '-' then
        match twoDigits? 0 23 rest with
        | some (_, ':' :: rest) =>
            match twoDigits? 0 59 rest with
            | some (_, []) => true
            | _ => false
        | _ => false
      else false

/-- Is a text a time of day with an optional offset? -/
def isTimeWithOffset (cs : List Char) : Bool :=
  match time? cs with
  | some rest => isOffset rest
  | none => false

/-- Is a text a date, a time, or both joined by a `T`? -/
def isDateTime (cs : List Char) : Bool :=
  time? cs == some [] ||
    match date? cs with
    | some [] => true
    | some (c :: rest) => (c == 'T' || c == 't') && isTimeWithOffset rest
    | none => false

/-! ## Classifying -/

/-- May a scalar other than a string hold this character? -/
def isWordChar (c : Char) : Bool :=
  c.isAlphanum || c == '+' || c == '-' || c == '.' || c == '_' || c == ':'

/-- The value written by a word. -/
def word? (cs : List Char) : Option Value :=
  if cs = ['t', 'r', 'u', 'e'] then some (.boolean true)
  else if cs = ['f', 'a', 'l', 's', 'e'] then some (.boolean false)
  else if isDateTime cs then some (.dateTime (String.ofList cs))
  else if isFloat cs then some (.float (String.ofList cs))
  else (integer? cs).map .integer

/-- Read a scalar.  A date may be followed by one space and a time. -/
def scalar? (cs : List Char) : Option (Value × List Char) :=
  match cs with
  | '"' :: _ => (string? cs).map fun (s, rest) => (.string s, rest)
  | '\'' :: _ => (string? cs).map fun (s, rest) => (.string s, rest)
  | cs =>
      let word := cs.takeWhile isWordChar
      let rest := cs.dropWhile isWordChar
      match date? word, rest with
      | some [], ' ' :: c :: more =>
          if c.isDigit then
            let time := (c :: more).takeWhile isWordChar
            if isTimeWithOffset time then
              some (.dateTime (String.ofList (word ++ ' ' :: time)),
                (c :: more).dropWhile isWordChar)
            else none
          else (word? word).map fun v => (v, rest)
      | _, _ => (word? word).map fun v => (v, rest)

end TapeMachine.Toml
