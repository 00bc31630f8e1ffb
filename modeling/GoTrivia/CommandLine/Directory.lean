import GoTrivia.Text.Span
import GoTrivia.Text.Split

/-!
# Directories

A directory is a value: the files and directories in it, each by its name.  A path is
walked part by part from there.  What lies outside the directory is not known, except
that the directories above it are directories and hold nothing else.
-/

set_option autoImplicit false

namespace GoTrivia

namespace CommandLine

/-- Why a file could not be read. -/
inductive ReadFailure
  | missing
  | notDirectory
  | directory
  | nameTooLong
  | notText
  | other (message : String)
deriving DecidableEq, Repr

/-- The wording of a read failure. -/
def ReadFailure.message : ReadFailure → String
  | missing => "No such file or directory (os error 2)"
  | notDirectory => "Not a directory (os error 20)"
  | directory => "Is a directory (os error 21)"
  | nameTooLong => "File name too long (os error 36)"
  | notText => "stream did not contain valid UTF-8"
  | other message => message

/-- What reading each path gives. -/
abbrev Reader := String → Except ReadFailure String

/-- What a name in a directory stands for. -/
inductive Entry
  /-- A file that holds a text. -/
  | text (content : String)
  /-- A file that holds something else. -/
  | binary
  /-- A directory. -/
  | directory
deriving DecidableEq, Repr

/-- The text an entry holds. -/
def Entry.text? : Entry → Option String
  | text content => some content
  | _ => none

/-- The entries of a directory and of those in it, by their paths from there. -/
structure Directory where
  entries : List (String × Entry)
deriving DecidableEq, Repr

/-- Where a walk stands: at the names that lead there, or outside the directory. -/
inductive Place
  | inside (names : List (List Char))
  | outside
deriving DecidableEq, Repr

namespace Directory

/-- The names that lead to an entry. -/
def namesOf (path : String) : List (List Char) := Text.splitAt '/' path.toList

/-- The entry that some names lead to.  Whatever lies on the way to an entry is a
directory. -/
def entry? (directory : Directory) (names : List (List Char)) : Option Entry :=
  if names.isEmpty then some .directory
  else
    match directory.entries.find? (fun entry => namesOf entry.1 == names) with
    | some entry => some entry.2
    | none =>
      if directory.entries.any (fun entry => names.isPrefixOf (namesOf entry.1)) then
        some .directory
      else none

/-- The most bytes a name may take. -/
def nameLimit : Nat := 255

/-- The most bytes a path may take. -/
def pathLimit : Nat := 4095

/-- One step of a walk, to the place that a part of a path names. -/
def step (directory : Directory) (place : Place) (part : List Char) :
    Except ReadFailure Place :=
  let stays := part == [] || part == ['.']
  let rises := part == ['.', '.']
  match place with
  | .outside =>
    if stays || rises then .ok .outside
    else if nameLimit < byteLength part then .error .nameTooLong
    else .error .missing
  | .inside names =>
    if directory.entry? names ≠ some .directory then .error .notDirectory
    else if stays then .ok place
    else if rises then .ok (if names.isEmpty then .outside else .inside names.dropLast)
    else if nameLimit < byteLength part then .error .nameTooLong
    else if (directory.entry? (names ++ [part])).isSome then .ok (.inside (names ++ [part]))
    else .error .missing

/-- The place that a path leads to. -/
def walk (directory : Directory) (path : String) : Except ReadFailure Place :=
  if path.isEmpty then .error .missing
  else if pathLimit < byteLength path.toList then .error .nameTooLong
  else
    let start := if path.toList.head? = some '/' then .outside else .inside []
    (namesOf path).foldlM directory.step start

/-- Reads the text that a path leads to. -/
def read (directory : Directory) : Reader := fun path => do
  match ← directory.walk path with
  | .outside => .error .directory
  | .inside names =>
    match directory.entry? names with
    | some (.text content) => .ok content
    | some .binary => .error .notText
    | some .directory => .error .directory
    | none => .error .missing

/-- Puts a text where a path leads to. -/
def write (directory : Directory) (path text : String) : Directory :=
  match directory.walk path with
  | .ok (.inside names) =>
    ⟨directory.entries.map fun entry =>
      if namesOf entry.1 = names then (entry.1, .text text) else entry⟩
  | _ => directory

end Directory

end CommandLine

end GoTrivia
