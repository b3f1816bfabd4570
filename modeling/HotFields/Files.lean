namespace HotFields

namespace Path

/-- The pieces of a text between slashes, empty ones included. -/
def pieces : List Char → List (List Char)
  | [] => [[]]
  | c :: rest => if c = '/' then [] :: pieces rest else (pieces rest).modifyHead (c :: ·)

/-- The parts of a path between slashes that are not empty. -/
def parts (path : String) : List String :=
  ((pieces path.toList).filter fun piece => !piece.isEmpty).map String.ofList

/-- The name of the file at the end of a path. -/
def fileName? (path : String) : Option String :=
  match ((parts path).filter fun part => part ≠ ".").getLast? with
  | none => none
  | some name => if name = ".." then none else some name

/-- What follows the last point of a file name. A point at its start does not count. -/
def nameExtension? (name : List Char) : Option (List Char) :=
  if '.' ∈ name.tail then some (name.reverse.takeWhile (· ≠ '.')).reverse else none

/-- The extension of the file that a path names, if it has one. -/
def extension? (path : String) : Option String :=
  ((fileName? path).bind fun name => nameExtension? name.toList).map String.ofList

/-- The extension of the file that a path names; empty if it has none. -/
def extension (path : String) : String :=
  (extension? path).getD ""

end Path

/-- Why a file cannot be read as text. An objection of the operating system without a name here has its number, and the
words that came with it. -/
inductive FileFault where
  | missing
  | denied
  | notDirectory
  | isDirectory
  | nameTooLong
  | linkLoop
  | notText
  | system (number : Nat) (words : String)
  deriving DecidableEq

/-- The fault that an error number of the operating system stands for. -/
def FileFault.ofNumber (number : Nat) (words : String) : FileFault :=
  match number with
  | 2 => .missing
  | 13 => .denied
  | 20 => .notDirectory
  | 21 => .isDirectory
  | 36 => .nameTooLong
  | 40 => .linkLoop
  | _ => .system number words

def FileFault.message : FileFault → String
  | .missing => "No such file or directory (os error 2)"
  | .denied => "Permission denied (os error 13)"
  | .notDirectory => "Not a directory (os error 20)"
  | .isDirectory => "Is a directory (os error 21)"
  | .nameTooLong => "File name too long (os error 36)"
  | .linkLoop => "Too many levels of symbolic links (os error 40)"
  | .notText => "stream did not contain valid UTF-8"
  | .system number words => words ++ " (os error " ++ Nat.repr number ++ ")"

/-- How a run reads a file. -/
abbrev FileReader := String → Except FileFault String

/-- What a name in a directory stands for. -/
inductive FileEntry where
  | directory
  | text (content : String)
  | bytes (content : ByteArray)

/-- The text of an entry. -/
def FileEntry.read : FileEntry → Except FileFault String
  | .directory => .error .isDirectory
  | .text content => .ok content
  | .bytes content =>
    match String.fromUTF8? content with
    | some decoded => .ok decoded
    | none => .error .notText

/-- A working directory and everything below it, by the parts of the path. -/
structure Files where
  entries : List (List String × FileEntry) := []

namespace Files

/-- Adds an entry. The directories on the way to it come with it. -/
def insert (files : Files) (path : String) (entry : FileEntry) : Files :=
  ⟨files.entries ++ [(Path.parts path, entry)]⟩

/-- What stands at a place. A place with something below it is a directory. -/
def entryAt? (files : Files) (place : List String) : Option FileEntry :=
  if place.isEmpty then some .directory
  else
    match files.entries.find? fun e => e.1 = place with
    | some e => some e.2
    | none =>
      if files.entries.any fun e => place.isPrefixOf e.1 then some .directory else none

/-- Follows the parts of a path from a directory. -/
def follow (files : Files) : List String → List String → Except FileFault (List String)
  | place, [] => .ok place
  | place, part :: rest =>
    match files.entryAt? place with
    | none => .error .missing
    | some .directory =>
      if part = "." then files.follow place rest
      else if part = ".." then
        if place.isEmpty then .error .missing else files.follow place.dropLast rest
      else files.follow (place ++ [part]) rest
    | some _ => .error .notDirectory

/-- Reads the file at a relative path. -/
def read (files : Files) : FileReader := fun path => do
  if path.isEmpty || path.startsWith "/" then throw .missing
  let place ← files.follow [] (Path.parts path)
  match files.entryAt? place with
  | none => throw .missing
  | some .directory => throw .isDirectory
  | some entry => if path.endsWith "/" then throw .notDirectory else entry.read

end Files

end HotFields
