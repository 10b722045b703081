/-! # Grammars — options and operands of a command

    The arguments of a command are options, with or without values, and
    operands.  The first operand ends the options: all that follows are
    operands too.  So does `--`, which is dropped.

      * An option is given by its long name after two hyphens, or by its
        letter after one.  Several letters may share a hyphen, and the
        value of a long option may follow an equals sign, that of a
        letter may follow at once.
      * Where operands may start with a hyphen, an argument that is not
        made of known options is an operand.
      * A value may be any argument but a known option, and for some
        options even that.

    An argument that fits nowhere refuses the whole, and so does an
    option given twice that may not repeat. -/

namespace TapeMachine.Console

/-- One option. -/
structure Choice (κ : Type) where
  /-- What the option is for. -/
  key : κ
  /-- Its letter. -/
  letter : Option Char := none
  /-- Its long name. -/
  name : String
  /-- Is it followed by a value? -/
  valued : Bool := false
  /-- May its value look like an option? -/
  anyValue : Bool := false
  /-- May it be given more than once? -/
  repeats : Bool := false

/-- Which operands a command takes. -/
inductive Operands where
  | none
  /-- Operands whose first does not start with a hyphen. -/
  | plain
  /-- Operands that may start with a hyphen. -/
  | hyphened
deriving DecidableEq, Repr

/-- The options and operands of a command. -/
structure Grammar (κ : Type) where
  choices : List (Choice κ)
  operands : Operands := .none
  /-- Words that name a command of their own and end the options. -/
  commands : List String := []

/-- What was found in the arguments. -/
structure Found (κ : Type) where
  /-- The options with their values, newest first. -/
  given : List (κ × Option String) := []
  operands : List String := []
  /-- The command named, and the arguments left to it. -/
  command : Option (String × List String) := none

namespace Found

variable {κ : Type} [DecidableEq κ]

/-- Is an option given? -/
def has (f : Found κ) (key : κ) : Bool := f.given.any (·.1 = key)

/-- The values of an option, in order. -/
def values (f : Found κ) (key : κ) : List String :=
  (f.given.reverse.filter (·.1 = key)).filterMap (·.2)

/-- The value of an option. -/
def value? (f : Found κ) (key : κ) : Option String := (f.values key).head?

/-- Note an option, unless it may not be repeated and is there. -/
def note (f : Found κ) (choice : Choice κ) (value : Option String) :
    Option (Found κ) :=
  if f.has choice.key ∧ !choice.repeats then none
  else some { f with given := (choice.key, value) :: f.given }

end Found

namespace Grammar

variable {κ : Type} [DecidableEq κ]

/-- The option with a letter. -/
def byLetter? (g : Grammar κ) (c : Char) : Option (Choice κ) :=
  g.choices.find? (·.letter = some c)

/-- The option with a long name. -/
def byName? (g : Grammar κ) (name : List Char) : Option (Choice κ) :=
  g.choices.find? (·.name.toList = name)

/-- The shapes an argument can have. -/
inductive Shape where
  /-- Two hyphens and nothing else. -/
  | divider
  /-- Two hyphens, a name, and maybe a value. -/
  | long (name : List Char) (value : Option (List Char))
  /-- A hyphen and letters. -/
  | short (letters : List Char)
  | other

/-- The shape of an argument. -/
def shape (arg : String) : Shape :=
  match arg.toList with
  | ['-', '-'] => .divider
  | '-' :: '-' :: rest =>
      match rest.dropWhile (· ≠ '=') with
      | [] => .long rest none
      | _ :: value => .long (rest.takeWhile (· ≠ '=')) (some value)
  | '-' :: c :: rest => .short (c :: rest)
  | _ => .other

/-- Is this argument made of known options only? -/
def isKnown (g : Grammar κ) : Shape → Bool
  | .divider => true
  | .long name _ => (g.byName? name).isSome
  | .short letters => letters.all fun c => (g.byLetter? c).isSome
  | .other => false

/-- May this argument be the value of an option? -/
def mayBeValue (g : Grammar κ) (choice : Choice κ) (shape : Shape) : Bool :=
  choice.anyValue ||
    match shape with
    | .other => true
    | shape => g.operands = .hyphened && !g.isKnown shape

/-- What to do after the letters of an argument: go on, or take the next
    argument as the value of an option. -/
abbrev Pending (κ : Type) := Found κ × Option (Choice κ)

/-- Read the letters of an argument. -/
def letters? (g : Grammar κ) (f : Found κ) :
    List Char → Option (Pending κ)
  | [] => some (f, none)
  | c :: rest =>
      match g.byLetter? c with
      | none => none
      | some choice =>
          if choice.valued then
            match rest with
            | [] => some (f, some choice)
            | '=' :: value =>
                (f.note choice (String.ofList value)).map (·, none)
            | value => (f.note choice (String.ofList value)).map (·, none)
          else (f.note choice none).bind fun f => g.letters? f rest

/-- Read a long option. -/
def long? (g : Grammar κ) (f : Found κ) (name : List Char)
    (value : Option (List Char)) : Option (Pending κ) :=
  match g.byName? name with
  | none => none
  | some choice =>
      match choice.valued, value with
      | true, none => some (f, some choice)
      | true, some value =>
          (f.note choice (String.ofList value)).map (·, none)
      | false, none => (f.note choice none).map (·, none)
      | false, some _ => none

/-- The rest are operands. -/
def takeOperands (g : Grammar κ) (f : Found κ) (rest : List String) :
    Option (Found κ) :=
  if rest.isEmpty then some f
  else if g.operands = .none then none
  else some { f with operands := rest }

/-- Read the arguments after those found, where the option `awaiting` may
    still wait for its value. -/
def parseFrom (g : Grammar κ) (f : Found κ) (awaiting : Option (Choice κ)) :
    List String → Option (Found κ)
  | [] => if awaiting.isNone then some f else none
  | arg :: rest =>
      match awaiting with
      | some choice =>
          if g.mayBeValue choice (shape arg) then
            (f.note choice (some arg)).bind fun f => g.parseFrom f none rest
          else none
      | none =>
          if g.commands.contains arg then
            some { f with command := some (arg, rest) }
          else
            match shape arg with
            | .divider => g.takeOperands f rest
            | .other => g.takeOperands f (arg :: rest)
            | .long name value =>
                if g.operands = .hyphened ∧ !g.isKnown (.long name value) then
                  g.takeOperands f (arg :: rest)
                else
                  (g.long? f name value).bind fun (f, awaiting) =>
                    g.parseFrom f awaiting rest
            | .short letters =>
                if g.operands = .hyphened ∧ !g.isKnown (.short letters) then
                  g.takeOperands f (arg :: rest)
                else
                  (g.letters? f letters).bind fun (f, awaiting) =>
                    g.parseFrom f awaiting rest

/-- Read all arguments. -/
def parse (g : Grammar κ) (args : List String) : Option (Found κ) :=
  g.parseFrom {} none args

end Grammar

end TapeMachine.Console
