import Abacus.Files.Path
import Abacus.Text.Str

/-!
# Files

Files have a place and contents. The directories are those on the way to a file, the working
directory, and the directories above it. Names and paths have a largest size.

## Main definitions

* `Place` — where a file is
* `FileError` — why a file cannot be opened
* `maxNameSize`, `maxPathSize` — how many bytes a name and a path may have
* `Files.find` — follows the names of a path
* `Files.load`, `Files.target`, `Files.set` — reading a file, opening one for writing, writing it
-/

namespace Abacus

/-- Where a path starts. -/
inductive Base
  /-- So many directories above the working directory. -/
  | above (levels : Nat)
  | root
  deriving DecidableEq

/-- The place of a file or directory: names to follow from a base. -/
structure Place where
  base : Base
  names : List String
  deriving DecidableEq

namespace Place

/-- The working directory. -/
def here : Place := ⟨.above 0, []⟩

/-- The place of a name in a directory. -/
def child (p : Place) (name : String) : Place :=
  ⟨p.base, p.names ++ [name]⟩

/-- The directory above; the root is above itself. -/
def parent (p : Place) : Place :=
  match p.names, p.base with
  | [], .above levels => ⟨.above (levels + 1), []⟩
  | [], .root => p
  | names, base => ⟨base, names.dropLast⟩

end Place

/-- Why a file cannot be opened; the name is the one that was asked for. -/
inductive FileError
  | notFound (name : String)
  | notDirectory (name : String)
  | isDirectory (name : String)
  | tooLong (name : String)
  | nullCharacter
  deriving DecidableEq

/-- The wording of an error. -/
def FileError.message : FileError → String
  | .notFound name => "[Errno 2] No such file or directory: " ++ Text.quote name
  | .notDirectory name => "[Errno 20] Not a directory: " ++ Text.quote name
  | .isDirectory name => "[Errno 21] Is a directory: " ++ Text.quote name
  | .tooLong name => "[Errno 36] File name too long: " ++ Text.quote name
  | .nullCharacter => "embedded null byte"

/-- The largest size of a name in bytes. -/
def maxNameSize : Nat := 255

/-- The largest size of a path in bytes. -/
def maxPathSize : Nat := 4095

/-- What stands at the end of a path. -/
inductive Found
  | file (place : Place)
  | directory
  /-- The directory is there, the name in it is not. -/
  | vacant (place : Place)
  /-- A directory on the way is not there. -/
  | missing
  /-- A file stands on the way. -/
  | blocked
  /-- A name is too long, or the path is. -/
  | tooLong
  deriving DecidableEq

/-- Files with their contents, each at a place of its own. -/
structure Files where
  entries : List (Place × List UInt8)

namespace Files

/-- The contents of the file at a place. -/
def lookup (fs : Files) (place : Place) : Option (List UInt8) :=
  fs.entries.lookup place

/-- Whether a place is a directory. -/
def isDirectory (fs : Files) (place : Place) : Bool :=
  place.names.isEmpty ||
    fs.entries.any fun (p, _) =>
      p.base = place.base && place.names.isPrefixOf p.names && place.names ≠ p.names

/-- Follows names from a directory. -/
def findFrom (fs : Files) (here : Place) : List String → Found
  | [] => .directory
  | name :: names =>
    if name = "." then findFrom fs here names
    else if name = ".." then findFrom fs here.parent names
    else if maxNameSize < name.utf8ByteSize then .tooLong
    else
      let next := here.child name
      if (fs.lookup next).isSome then
        if names.isEmpty then .file next else .blocked
      else if fs.isDirectory next then findFrom fs next names
      else if names.isEmpty then .vacant next
      else .missing

/-- Follows the names of a path with the given text, whose slashes in front say where it starts. -/
def find (fs : Files) (text : String) (names : List String) : Found :=
  if maxPathSize < text.utf8ByteSize then .tooLong
  else fs.findFrom (if Path.leadingSlashes text = 0 then .here else ⟨.root, []⟩) names

/-- Whether a text has a null character, which no name has. -/
def hasNull (text : String) : Bool :=
  text.toList.contains '\x00'

/-- The contents of the file at a path. -/
def load (fs : Files) (path : Path) : Except FileError (List UInt8) :=
  let text := path.toText
  if hasNull text then .error (.notFound text)
  else
    match fs.find text path.names with
    | .file place => .ok ((fs.lookup place).getD [])
    | .directory => .error (.isDirectory text)
    | .vacant _ | .missing | .blocked => .error (.notFound text)
    | .tooLong => .error (.tooLong text)

/-- The place of the file that is written under a name. The name is followed as it is given: with a
slash at its end it cannot be a file's. -/
def target (fs : Files) (name : String) : Except FileError Place :=
  if hasNull name then .error .nullCharacter
  else
    match fs.find name ((Path.split name).filter (· ≠ "")) with
    | .file place | .vacant place =>
      if name.toList.getLast? = some '/' then .error (.isDirectory name) else .ok place
    | .directory => .error (.isDirectory name)
    | .missing => .error (.notFound name)
    | .blocked => .error (.notDirectory name)
    | .tooLong => .error (.tooLong name)

/-- Writes an entry: over the one at the same place, or after all others. -/
def write (place : Place) (contents : List UInt8) :
    List (Place × List UInt8) → List (Place × List UInt8)
  | [] => [(place, contents)]
  | (p, old) :: rest =>
    if p = place then (p, contents) :: rest else (p, old) :: write place contents rest

/-- The files after the contents of one are written. -/
def set (fs : Files) (place : Place) (contents : List UInt8) : Files :=
  ⟨write place contents fs.entries⟩

end Files

end Abacus
