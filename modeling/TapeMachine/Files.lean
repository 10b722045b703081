/-! # Files — reading by path

    Reading a file gives its text or a problem.  `FileTree` is a tree of
    directories in memory: a path is followed name by name from the
    working directory or from the root, and every name but the last has
    to be a directory. -/

namespace TapeMachine

/-- Why a file could not be read. -/
inductive ReadProblem where
  | notFound
  | isDirectory
  | notADirectory
  | nameTooLong
  | nulInPath
  | notUtf8
  /-- Anything else, in the words of the system. -/
  | other (text : String)
deriving DecidableEq, Repr

/-- The problem in words. -/
def ReadProblem.message : ReadProblem → String
  | .notFound => "No such file or directory (os error 2)"
  | .isDirectory => "Is a directory (os error 21)"
  | .notADirectory => "Not a directory (os error 20)"
  | .nameTooLong => "File name too long (os error 36)"
  | .nulInPath => "file name contained an unexpected NUL byte"
  | .notUtf8 => "stream did not contain valid UTF-8"
  | .other text => text

/-- The text written by bytes. -/
def textOf (bytes : ByteArray) : Except ReadProblem String :=
  match String.fromUTF8? bytes with
  | some text => .ok text
  | none => .error .notUtf8

/-- A tree of directories: what stands at each path, given by the names
    from the root.  Directories on the way to a file need no entry. -/
structure FileTree where
  /-- The working directory. -/
  here : List String := []
  /-- The bytes at each path; a directory has none. -/
  entries : List (List String × Option ByteArray) := []

namespace FileTree

/-- What stands at a path of names. -/
inductive Found where
  | nothing
  | directory
  | file (bytes : ByteArray)

/-- Look up a path of names. -/
def find (tree : FileTree) (names : List String) : Found :=
  match tree.entries.lookup names with
  | some (some bytes) => .file bytes
  | some none => .directory
  | none =>
      if names.isPrefixOf tree.here
          || tree.entries.any (fun entry => names.isPrefixOf entry.1) then
        .directory
      else .nothing

/-- The longest name and the longest path allowed, in bytes. -/
def longestName : Nat := 255

@[inherit_doc longestName]
def longestPath : Nat := 4095

/-- Follow names from a path; the names still to come keep their empty
    parts, so that a path may end in a slash. -/
def follow (tree : FileTree) (place : List String) :
    List String → Except ReadProblem ByteArray
  | [] =>
      match tree.find place with
      | .nothing => .error .notFound
      | .directory => .error .isDirectory
      | .file bytes => .ok bytes
  | name :: rest =>
      match tree.find place with
      | .nothing => .error .notFound
      | .file _ => .error .notADirectory
      | .directory =>
          if name = "" ∨ name = "." then tree.follow place rest
          else if name = ".." then tree.follow place.dropLast rest
          else if longestName < name.utf8ByteSize then .error .nameTooLong
          else tree.follow (place ++ [name]) rest

/-- Read the bytes at a path. -/
def bytes (tree : FileTree) (path : String) :
    Except ReadProblem ByteArray :=
  let names := (path.toList.splitOn '/').map String.ofList
  if path.toList.contains '\x00' then .error .nulInPath
  else if path = "" then .error .notFound
  else if longestPath < path.utf8ByteSize then .error .nameTooLong
  else if path.toList.head? = some '/' then tree.follow [] names
  else tree.follow tree.here names

/-- Read the text at a path. -/
def read (tree : FileTree) (path : String) : Except ReadProblem String :=
  tree.bytes path >>= textOf

end FileTree

end TapeMachine
