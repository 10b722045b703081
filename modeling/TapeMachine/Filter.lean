import TapeMachine.Log
import TapeMachine.Text.Alphanumeric
import TapeMachine.Text.Blank
import TapeMachine.Text.Numeral
import TapeMachine.Text.Pattern

/-! # Filters — which events are shown

    A filter is a list of directives between commas:

      * a level, for every channel,
      * the start of a channel's name, alone or followed by an equals
        sign and a level,
      * and, before the equals sign, brackets with the name of a span,
        or with braces around the name of a field.

    Brackets restrict a directive to events inside a span, or to events
    with a field.  No event here happens inside a span, so directives
    that name one, or the value of a field, apply to nothing.  Of the
    directives that apply to an event the most specific one decides. -/

namespace TapeMachine

/-- Which events a directive is restricted to. -/
inductive Condition where
  | always
  /-- Events with a field of this name. -/
  | has (field : List Char)
  /-- Events inside a certain span; there are none. -/
  | inSpan
deriving DecidableEq, Repr

namespace Condition

/-- Does an event meet the condition? -/
def admits (e : Event) : Condition → Bool
  | .always => true
  | .has field => e.hasField (String.ofList field)
  | .inSpan => false

/-- Read what stands between braces: the name of a field, or a name and
    a value, which only the fields of spans are compared with. -/
def ofField? (text : List Char) : Option Condition :=
  if text.isEmpty then none
  else
    match text.dropWhile (· ≠ '=') with
    | [] => some (.has text)
    | _ :: rest =>
        if Text.Pattern.describesValue (rest.takeWhile (· ≠ '=')) then
          some .inSpan
        else none

/-- Is a condition at most as specific as another?  A field is more
    specific than none, and of two fields the one whose name comes
    later in the alphabet. -/
def upTo : Condition → Condition → Bool
  | .has a, .has b => !(String.ofList b < String.ofList a)
  | .has _, _ => false
  | _, _ => true

end Condition

/-- One directive: on channels that start with `channel`, and of events
    that meet the condition, show those up to a level, or none at all. -/
structure Directive where
  /-- The start of the channel's name; empty for every channel. -/
  channel : List Char := []
  condition : Condition := .always
  /-- The greatest detail shown; zero shows nothing. -/
  detail : Nat
deriving DecidableEq, Repr

namespace Directive

/-- Does a directive say anything about an event? -/
def applies (d : Directive) (e : Event) : Bool :=
  d.channel.isPrefixOf e.channel.toList && d.condition.admits e

/-- Is a directive at most as specific as another?  The longer channel
    is the more specific one, and after that the condition. -/
def upTo (a b : Directive) : Bool :=
  a.channel.length < b.channel.length
    || (a.channel.length == b.channel.length && a.condition.upTo b.condition)

/-- The detail named by a level's number or by its name in any case; no
    text at all stands for the errors. -/
def detail? (text : List Char) : Option Nat :=
  match Text.unsigned? 10 Text.digit? text with
  | some n => if n ≤ 5 then some n else none
  | none =>
      let name := String.ofList (text.map Char.toLower)
      if name = "" ∨ name = "error" then some 1
      else if name = "warn" then some 2
      else if name = "info" then some 3
      else if name = "debug" then some 4
      else if name = "trace" then some 5
      else if name = "off" then some 0
      else none

/-- The detail after an equals sign; everything is shown if it is left
    out. -/
def detailOrAll? (text : List Char) : Option Nat :=
  if text.isEmpty then some 5 else detail? text

/-- May a directive without a bracket start with this character? -/
def mayStart (c : Char) : Bool :=
  c == '-' || c == ':' || c == '_' || Text.isAlphanumeric c

/-! ## Reading a directive

    A directive is read without the blanks around it, but its parts are
    cut from the text with them, at the places counted without.  So
    blanks at the start displace every part, and blanks at the end
    belong to the last one.  Places are counted in bytes. -/

/-- Split a text after a number of bytes, unless that would divide a
    character. -/
def splitAtByte? : List Char → Nat → Option (List Char × List Char)
  | cs, 0 => some ([], cs)
  | [], _ + 1 => none
  | c :: cs, n + 1 =>
      if c.utf8Size ≤ n + 1 then
        (splitAtByte? cs (n + 1 - c.utf8Size)).map fun (front, rest) =>
          (c :: front, rest)
      else none

/-- The part of a text between two places. -/
def cut? (text : List Char) (start stop : Nat) : Option (List Char) := do
  let (front, _) ← splitAtByte? text stop
  let (_, part) ← splitAtByte? front start
  return part

/-- The part of a directive that is being read, with the place where it
    starts. -/
inductive Stage where
  | start
  /-- A level or a channel. -/
  | word
  | span (start : Nat)
  | field (start : Nat)
  /-- After the closing brace. -/
  | fieldDone
  /-- After the closing bracket. -/
  | spanDone
  | level (start : Nat)
deriving DecidableEq, Repr

/-- A directive read in part. -/
structure Draft where
  stage : Stage := .start
  channel : List Char := []
  condition : Condition := .always
deriving DecidableEq, Repr

/-- Read the character at a place of a text. -/
def Draft.read? (text : List Char) (d : Draft) (place : Nat) (c : Char) :
    Option Draft :=
  match d.stage with
  | .start =>
      if c = '[' then some { d with stage := .span (place + 1) }
      else if mayStart c then some { d with stage := .word }
      else none
  | .word =>
      if c = '=' then do
        let channel ← cut? text 0 place
        return { d with channel, stage := .level (place + 1) }
      else if c = '[' then do
        let channel ← cut? text 0 place
        return { d with channel, stage := .span (place + 1) }
      else some d
  | .span start =>
      if c = ']' then some { d with condition := .inSpan, stage := .spanDone }
      else if c = '\x7b' then do
        let name ← cut? text start place
        return { d with
          condition := if name.isEmpty then .always else .inSpan
          stage := .field (place + 1) }
      else some d
  | .field start =>
      if c = '\x7d' then do
        let condition ← Condition.ofField? (← cut? text start place)
        return { d with
          condition := if d.condition = .inSpan then .inSpan else condition
          stage := .fieldDone }
      else some d
  | .fieldDone => if c = ']' then some { d with stage := .spanDone } else none
  | .spanDone =>
      if c = '=' then some { d with stage := .level (place + 1) } else none
  | .level _ => some d

/-- Read the rest of a directive from a place of a text. -/
def Draft.readAll? (text : List Char) (d : Draft) (place : Nat) :
    List Char → Option Draft
  | [] => some d
  | c :: rest =>
      (d.read? text place c).bind fun d =>
        Draft.readAll? text d (place + c.utf8Size) rest

/-- The directive of a draft in which all was read. -/
def Draft.finish? (text : List Char) (d : Draft) : Option Directive :=
  match d.stage with
  | .word =>
      match detail? text with
      | some detail => some { detail }
      | none => some { channel := text, detail := 5 }
  | .spanDone =>
      some { channel := d.channel, condition := d.condition, detail := 5 }
  | .level start => do
      let (_, level) ← splitAtByte? text start
      let detail ← detailOrAll? level
      return { channel := d.channel, condition := d.condition, detail }
  | _ => none

/-- Read a directive. -/
def ofChars? (text : List Char) : Option Directive :=
  (Draft.readAll? text {} 0 (Text.trimmed text)).bind (·.finish? text)

end Directive

/-- Which events are shown: the directives in the order given. -/
structure Filter where
  directives : List Directive
deriving DecidableEq, Repr

namespace Filter

/-- Every event up to a level is shown. -/
def upTo (level : Level) : Filter := ⟨[{ detail := level.detail }]⟩

/-- The directive that decides about an event: of those that apply the
    most specific, and of equally specific ones the last. -/
def deciding (f : Filter) (e : Event) : Option Directive :=
  (f.directives.filter (·.applies e)).foldl
    (fun best d =>
      match best with
      | none => some d
      | some b => if b.upTo d then some d else best)
    none

/-- Is this event shown? -/
def admits (f : Filter) (e : Event) : Bool :=
  match f.deciding e with
  | none => false
  | some d => e.level.detail ≤ d.detail

/-- Read a filter.  Without any directive the errors are shown. -/
def ofText? (text : String) : Option Filter := do
  let parts := (text.toList.splitOn ',').filter (!·.isEmpty)
  if parts.isEmpty then return upTo .error
  else return ⟨← parts.mapM Directive.ofChars?⟩

/-- The lines shown of a list of events. -/
def lines (f : Filter) (events : List Event) : List String :=
  (events.filter f.admits).map Event.line

end Filter

end TapeMachine
