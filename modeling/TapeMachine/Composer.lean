/-! # The composer — programs that print a given text

    The composed program keeps the code point of the last character
    printed in the cell under the cursor, so each character costs the
    difference to the one before.  A difference is written either as a
    plain run of signs or with a loop that counts down the cell to the
    left,

        < +++ [ > +++++++ < - ] > ++ .

    whichever is shorter.  A plan for a loop is a counter and a step;
    the signs that the loop falls short or goes too far follow it.

      * The step is the quotient of difference and counter, rounded to
        the nearest whole number, a half upwards.
      * Of equally short plans the one with the smallest counter is
        taken, and a loop only if it is shorter than the plain run. -/

namespace TapeMachine.Composer

/-- How programs are composed. -/
structure Options where
  /-- May loops be used? -/
  loops : Bool := true
  /-- The largest counter considered. -/
  maxCounter : Nat := 32
deriving DecidableEq, Repr

/-- The command that brings a cell nearer to a number with this sign. -/
def sign (d : Int) : Char := if 0 ≤ d then '+' else '-'

/-- A difference as a run of signs. -/
def plain (d : Int) : List Char := List.replicate d.natAbs (sign d)

/-- The quotient rounded to the nearest whole number, a half upwards. -/
def nearest (n divisor : Nat) : Nat := (2 * n + divisor) / (2 * divisor)

/-- A loop that makes a difference: the counter says how often, the step
    how much each time. -/
structure Plan where
  counter : Nat
  step : Nat
deriving DecidableEq, Repr

namespace Plan

/-- What is left of the difference after the loop. -/
def remainder (p : Plan) (d : Int) : Int :=
  d - d.sign * (p.counter * p.step : Nat)

/-- The commands of the loop and of what it leaves. -/
def commands (p : Plan) (d : Int) : List Char :=
  '<' :: List.replicate p.counter '+' ++ ['[', '>']
    ++ List.replicate p.step (sign d) ++ ['<', '-', ']', '>']
    ++ plain (p.remainder d)

/-- The number of those commands. -/
def length (p : Plan) (d : Int) : Nat :=
  p.counter + p.step + (p.remainder d).natAbs + 7

/-- The plan with a given counter. -/
def withCounter (d : Int) (counter : Nat) : Plan :=
  ⟨counter, nearest d.natAbs counter⟩

/-- The shorter of two plans, the first if they are equal. -/
def shorter (d : Int) (p q : Plan) : Plan :=
  if q.length d < p.length d then q else p

/-- The shortest of a plan and the plans with the next `n` counters. -/
def search (d : Int) (best : Plan) (counter : Nat) : Nat → Plan
  | 0 => best
  | n + 1 =>
      search d (shorter d best (withCounter d counter)) (counter + 1) n

end Plan

/-- The number of counters worth a look, from two on: beyond twice the
    difference the step would be zero. -/
def candidates (options : Options) (d : Int) : Nat :=
  min options.maxCounter (2 * d.natAbs) - 1

/-- The shortest plan for a difference, if there is any. -/
def bestPlan (options : Options) (d : Int) : Option Plan :=
  match options.loops, candidates options d with
  | true, n + 1 => some (Plan.search d (Plan.withCounter d 2) 3 n)
  | _, _ => none

/-- The commands that make a difference in the cell under the cursor. -/
def segment (options : Options) (d : Int) : List Char :=
  match bestPlan options d with
  | some p => if p.length d < d.natAbs then p.commands d else plain d
  | none => plain d

/-- The differences between consecutive code points, the first one to
    `last`. -/
def differences (last : Nat) (codes : List Nat) : List Int :=
  List.zipWith (fun (code before : Nat) => (code : Int) - before)
    codes (last :: codes)

/-- The program that prints the given characters on a zero cell. -/
def commands (options : Options) (text : List Char) : List Char :=
  (differences 0 (text.map Char.toNat)).flatMap fun d =>
    segment options d ++ ['.']

/-- The program that prints a text. -/
def compose (options : Options) (text : String) : String :=
  String.ofList (commands options text.toList)

end TapeMachine.Composer
