import Wireframe.Text.Quoted

/-!
File names and the files that they lead to. A name is a row of parts. Parts that are empty or a
single point do not count, and two points lead to the directory above.
-/
namespace Wireframe

/-- A file name: the slashes in front, and the parts. -/
structure FileName where
  root : String
  parts : List String
deriving DecidableEq, Repr

namespace FileName

/-- The slashes that count in front of a name. Two of them stay two, and more are as good as
one. -/
def rootOf (name : Text) : String :=
  match (name.takeWhile (· == '/')).length with
  | 0 => ""
  | 2 => "//"
  | _ => "/"

def ofString (name : String) : FileName :=
  ⟨rootOf name.toList, (name.splitOn "/").filter fun part => part ≠ "" && part ≠ "."⟩

def toString (name : FileName) : String :=
  let path := name.root ++ "/".intercalate name.parts
  if path.isEmpty then "." else path

end FileName

inductive FileError where
  | missing
  | isDirectory
  | notDirectory
  | nameTooLong
deriving DecidableEq, Repr

namespace FileError

def message (name : FileName) (error : FileError) : String :=
  (match error with
    | .missing => "[Errno 2] No such file or directory: "
    | .isDirectory => "[Errno 21] Is a directory: "
    | .notDirectory => "[Errno 20] Not a directory: "
    | .nameTooLong => "[Errno 36] File name too long: ")
  ++ String.ofList (Text.quoted name.toString.toList)

end FileError

/-- The way to the contents of a file. -/
abbrev Files := FileName → Except FileError String

namespace Files

/-- The greatest number of bytes in a part of a name. -/
def partLimit : Nat := 255

/-- The number of bytes that a whole name has to stay below. -/
def nameLimit : Nat := 4096

abbrev Entries := List (List String × String)

def holds (entries : Entries) (directory : List String) : Bool :=
  entries.any fun entry => directory.isPrefixOf entry.1

/-- Follows the parts of a name from a directory, which is `none` outside of the directory at hand.
Outside there are directories above and nothing else. -/
def follow (entries : Entries) : Option (List String) → List String → Except FileError String
  | _, [] => .error .isDirectory
  | directory, part :: rest =>
    if part = ".." then
      follow entries (directory.bind fun path => if path.isEmpty then none else some path.dropLast)
        rest
    else if partLimit < part.utf8ByteSize then .error .nameTooLong
    else
      match directory with
      | none => .error .missing
      | some path =>
        let path := path ++ [part]
        match entries.lookup path with
        | some content => if rest.isEmpty then .ok content else .error .notDirectory
        | none => if holds entries path then follow entries (some path) rest else .error .missing

/-- The files of a directory that holds nothing else. -/
def ofList (files : List (String × String)) : Files := fun name =>
  if nameLimit ≤ name.toString.utf8ByteSize then .error .nameTooLong
  else
    let entries := files.map fun entry => ((FileName.ofString entry.1).parts, entry.2)
    follow entries (if name.root.isEmpty then some [] else none) name.parts

end Files

end Wireframe
