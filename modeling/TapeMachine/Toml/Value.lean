/-! # TOML values — and the tables they are gathered in

    A document is a table of values.  A table remembers how it came to
    be, because that decides what may still be added to it:

      * a table with a header of its own takes no second header, and no
        dotted key reaches into it from outside;
      * a table implied by a longer header may get its own header later;
      * a table made by dotted keys grows by dotted keys only, though
        headers may name tables below it;
      * an inline table is complete as written. -/

namespace TapeMachine.Toml

/-- How a table came to be. -/
inductive Origin where
  /-- By a header of its own; the whole document counts as such. -/
  | header
  /-- By a longer header that names it on the way. -/
  | implied
  /-- By a dotted key. -/
  | dotted
  /-- Between braces. -/
  | inline
deriving DecidableEq, Repr

/-- A value of a document.  Floats and date-times keep their text. -/
inductive Value where
  | string (s : String)
  | integer (n : Int)
  | float (text : String)
  | boolean (b : Bool)
  | dateTime (text : String)
  | array (items : List Value)
  | table (origin : Origin) (entries : List (String × Value))
  /-- An array of tables made by headers, the last one first. -/
  | tables (items : List (List (String × Value)))

/-- The keys and values of a table. -/
abbrev Entries := List (String × Value)

namespace Entries

/-- The value of a key. -/
def get? (entries : Entries) (key : String) : Option Value :=
  entries.lookup key

/-- Give a key a value, in place of the one it may have. -/
def put (entries : Entries) (key : String) (v : Value) : Entries :=
  match entries with
  | [] => [(key, v)]
  | (k, w) :: rest =>
      if k = key then (k, v) :: rest else (k, w) :: put rest key v

/-- Change the table at a path below a table.  Tables missing on the way
    are made, as `made` says; there is no way through a plain value, and
    a dotted key does not go through a table with a header.  In an array
    of tables the way goes through the last one. -/
def change (made : Origin) (f : Origin → Entries → Option Entries) :
    List String → (origin : Origin) → Entries → Option Entries
  | [], origin, entries => f origin entries
  | key :: path, _, entries =>
      match entries.get? key with
      | none =>
          (change made f path made []).map fun inner =>
            entries.put key (.table made inner)
      | some (.table .inline _) => none
      | some (.table origin inner) =>
          if made = .dotted ∧ origin = .header then none
          else
            (change made f path origin inner).map fun inner =>
              entries.put key (.table origin inner)
      | some (.tables (inner :: older)) =>
          (change made f path .header inner).map fun inner =>
            entries.put key (.tables (inner :: older))
      | some _ => none

/-- Add a key and its value to a table reached by dotted keys (`dotted`)
    or directly; the table must have come to be in the same way, and the
    key must be new. -/
def addNew (dotted : Bool) (key : String) (v : Value) (origin : Origin)
    (entries : Entries) : Option Entries :=
  if dotted != (origin == .dotted) then none
  else
    match entries.get? key with
    | some _ => none
    | none => some (entries.put key v)

/-- Add a value under a dotted key. -/
def add (entries : Entries) (path : List String) (key : String)
    (v : Value) : Option Entries :=
  change .dotted (addNew (!path.isEmpty) key v) path .header entries

end Entries

/-- A dotted key: the keys on the way, and the last one. -/
structure Key where
  path : List String
  last : String
deriving DecidableEq, Repr

/-- The keys and values below one header. -/
structure Section where
  /-- The name in the header. -/
  name : Key
  /-- Does the header add a table to an array? -/
  repeats : Bool
  /-- The lines below it. -/
  lines : List (Key × Value)

/-- Add lines to a table. -/
def addLines (entries : Entries) (lines : List (Key × Value)) :
    Option Entries :=
  lines.foldlM (fun entries (key, v) => entries.add key.path key.last v)
    entries

namespace Section

/-- Put the table of a section into the table that holds it. -/
def install (s : Section) (_ : Origin) (entries : Entries) :
    Option Entries :=
  match s.repeats, entries.get? s.name.last with
  | false, none =>
      (addLines [] s.lines).map fun inner =>
        entries.put s.name.last (.table .header inner)
  | false, some (.table .implied inner) =>
      (addLines inner s.lines).map fun inner =>
        entries.put s.name.last (.table .header inner)
  | true, none =>
      (addLines [] s.lines).map fun inner =>
        entries.put s.name.last (.tables [inner])
  | true, some (.tables older) =>
      (addLines [] s.lines).map fun inner =>
        entries.put s.name.last (.tables (inner :: older))
  | _, _ => none

/-- Add a section to a document. -/
def addTo (root : Entries) (s : Section) : Option Entries :=
  Entries.change .implied s.install s.name.path .header root

end Section

end TapeMachine.Toml
