import TapeMachine.Toml.Scalar

/-! # TOML documents — from text to a table

    A text is read in two passes.  The first finds its sections: the
    lines of each header, with their keys and values.  The second
    gathers the sections into one table and refuses a key that is given
    twice or reaches where nothing may be added.

    `parse` answers nothing for a text that is no document. -/

namespace TapeMachine.Toml

/-- The greatest number of values within values, and of keys in one
    dotted key, is one less than this. -/
def nesting : Nat := 80

/-! ## Line ends, blanks and comments -/

/-- Write every line end as one newline, after the characters in `done`,
    newest first; a carriage return elsewhere is refused. -/
def unifyFrom (done : List Char) : List Char → Option (List Char)
  | [] => some done.reverse
  | '\r' :: '\n' :: rest => unifyFrom ('\n' :: done) rest
  | c :: rest => if c = '\r' then none else unifyFrom (c :: done) rest

/-- Write every line end as one newline; a carriage return elsewhere is
    refused. -/
def unifyLineEnds (cs : List Char) : Option (List Char) := unifyFrom [] cs

/-- Drop spaces and tabs. -/
def skipGaps (cs : List Char) : List Char := cs.dropWhile isGap

/-- Drop blanks, newlines and comments, as between the items of an
    array; `inside` tells whether a comment has begun. -/
def skipLines (inside : Bool) : List Char → Option (List Char)
  | [] => if inside then none else some []
  | c :: rest =>
      if inside then
        if c = '\n' then skipLines false rest
        else if isPlain c then skipLines true rest
        else none
      else if isGap c ∨ c = '\n' then skipLines false rest
      else if c = '#' then skipLines true rest
      else some (c :: rest)

/-- Drop the rest of a line: blanks, maybe a comment, and its end. -/
def endLine (cs : List Char) : Option (List Char) :=
  match skipGaps cs with
  | [] => some []
  | '\n' :: rest => some rest
  | '#' :: rest =>
      match rest.dropWhile isPlain with
      | [] => some []
      | '\n' :: rest => some rest
      | _ => none
  | _ => none

/-! ## Keys -/

/-- Read one key, bare or quoted. -/
def simpleKey? (cs : List Char) : Option (String × List Char) :=
  match cs with
  | '"' :: rest => basicFrom .between [] rest
  | '\'' :: rest => literalFrom [] rest
  | cs =>
      let name := cs.takeWhile isBareKey
      if name.isEmpty then none
      else some (String.ofList name, cs.dropWhile isBareKey)

/-- Read the keys of a dotted key after those in `done`, newest first,
    with the blanks around them. -/
def keysFrom : (fuel : Nat) → (done : List String) → List Char →
    Option (List String × List Char)
  | 0, _, _ => none
  | fuel + 1, done, cs =>
      match simpleKey? (skipGaps cs) with
      | none => none
      | some (key, rest) =>
          match skipGaps rest with
          | '.' :: rest => keysFrom fuel (key :: done) rest
          | rest => some (key :: done, rest)

/-- Read a dotted key with the blanks around it. -/
def key? (cs : List Char) : Option (Key × List Char) :=
  match keysFrom (cs.length + 1) [] cs with
  | some (last :: path, rest) =>
      if path.length + 1 < nesting then some (⟨path.reverse, last⟩, rest)
      else none
  | _ => none

/-! ## Values

    The fuel bounds the number of values still to be read; the depth
    counts the values around the one that is read. -/

mutual

/-- Read a value. -/
def value? : (fuel depth : Nat) → List Char → Option (Value × List Char)
  | 0, _, _ => none
  | fuel + 1, depth, cs =>
      match cs with
      | '[' :: rest =>
          if depth + 1 < nesting then
            (skipLines false rest).bind (items? fuel (depth + 1) [])
          else none
      | '\x7b' :: rest =>
          if depth + 1 < nesting then
            match skipGaps rest with
            | '\x7d' :: rest => some (.table .inline [], rest)
            | rest => pairs? fuel (depth + 1) [] rest
          else none
      | cs => scalar? cs

/-- Read the items of an array after those in `done`, newest first. -/
def items? : (fuel depth : Nat) → (done : List Value) → List Char →
    Option (Value × List Char)
  | 0, _, _, _ => none
  | fuel + 1, depth, done, cs =>
      match cs with
      | ']' :: rest => some (.array done.reverse, rest)
      | cs =>
          match value? fuel depth cs with
          | none => none
          | some (v, rest) =>
              match skipLines false rest with
              | some (',' :: rest) =>
                  (skipLines false rest).bind (items? fuel depth (v :: done))
              | some (']' :: rest) =>
                  some (.array (v :: done).reverse, rest)
              | _ => none

/-- Read the keys and values of an inline table, adding them to those in
    `done`. -/
def pairs? : (fuel depth : Nat) → (done : Entries) → List Char →
    Option (Value × List Char)
  | 0, _, _, _ => none
  | fuel + 1, depth, done, cs =>
      match key? cs with
      | some (key, '=' :: rest) =>
          match value? fuel depth (skipGaps rest) with
          | none => none
          | some (v, rest) =>
              match done.add key.path key.last v, skipGaps rest with
              | some done, ',' :: rest => pairs? fuel depth done rest
              | some done, '\x7d' :: rest => some (.table .inline done, rest)
              | _, _ => none
      | _ => none

end

/-! ## Sections -/

/-- Read a key, an equals sign and a value, to the end of the line. -/
def line? (cs : List Char) : Option ((Key × Value) × List Char) :=
  match key? cs with
  | some (key, '=' :: rest) =>
      match value? (2 * rest.length + 2) 0 (skipGaps rest) with
      | some (v, rest) => (endLine rest).map fun rest => ((key, v), rest)
      | none => none
  | _ => none

/-- Read a header, to the end of the line. -/
def header? (cs : List Char) : Option (Section × List Char) :=
  match cs with
  | '[' :: '[' :: rest =>
      match key? rest with
      | some (name, ']' :: ']' :: rest) =>
          (endLine rest).map fun rest => (⟨name, true, []⟩, rest)
      | _ => none
  | '[' :: rest =>
      match key? rest with
      | some (name, ']' :: rest) =>
          (endLine rest).map fun rest => (⟨name, false, []⟩, rest)
      | _ => none
  | _ => none

/-- What has been read of a document: the lines before the first header
    and the sections, newest first. -/
structure Draft where
  top : List (Key × Value) := []
  sections : List Section := []

namespace Draft

/-- Add a line to the newest section. -/
def addLine (d : Draft) (line : Key × Value) : Draft :=
  match d.sections with
  | [] => { d with top := line :: d.top }
  | s :: older => { d with sections := { s with lines := line :: s.lines } :: older }

/-- The table of the whole document. -/
def gather (d : Draft) : Option Entries :=
  match addLines [] d.top.reverse with
  | none => none
  | some root =>
      d.sections.reverse.foldlM
        (fun root s => Section.addTo root { s with lines := s.lines.reverse })
        root

end Draft

/-- Read lines and headers until the end of the text. -/
def readFrom : (fuel : Nat) → Draft → List Char → Option Draft
  | 0, _, _ => none
  | fuel + 1, draft, cs =>
      match skipGaps cs with
      | [] => some draft
      | '\n' :: rest => readFrom fuel draft rest
      | '#' :: rest =>
          match endLine ('#' :: rest) with
          | some rest => readFrom fuel draft rest
          | none => none
      | '[' :: rest =>
          match header? ('[' :: rest) with
          | some (s, rest) =>
              readFrom fuel { draft with sections := s :: draft.sections } rest
          | none => none
      | rest =>
          match line? rest with
          | some (line, rest) => readFrom fuel (draft.addLine line) rest
          | none => none

/-- Drop a byte order mark at the start of a text. -/
def dropMark : List Char → List Char
  | '﻿' :: rest => rest
  | cs => cs

/-- The table written by a text, if it is a document. -/
def parse (text : String) : Option Entries :=
  match unifyLineEnds (dropMark text.toList) with
  | none => none
  | some cs => (readFrom (cs.length + 1) {} cs).bind Draft.gather

end TapeMachine.Toml
