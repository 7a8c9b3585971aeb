/-!
# Paths

A path is shown in its shortest spelling: without empty names, without names that stand for the
directory itself, and without a slash at the end. Names that lead to the directory above are kept,
because what they mean depends on the files.

## Main definitions

* `Path` — the slashes in front and the names of a path
* `Path.ofString`, `Path.toText` — reading and showing a path
* `Path.addSuffix` — the path of a file beside another
-/

namespace Abacus

/-- A path: relative, from the root, or from the root with two slashes in front. -/
structure Path where
  slashes : Nat
  names : List String
  deriving DecidableEq

namespace Path

/-- The names between the slashes of a path. -/
def split (text : String) : List String :=
  (text.toList.splitOn '/').map String.ofList

/-- How many slashes in front are kept: two if there are just two, otherwise at most one. -/
def leadingSlashes (text : String) : Nat :=
  match (text.toList.takeWhile (· = '/')).length with
  | 0 => 0
  | 2 => 2
  | _ => 1

/-- Reads a path. -/
def ofString (text : String) : Path :=
  ⟨leadingSlashes text, (split text).filter fun name => name ≠ "" ∧ name ≠ "."⟩

/-- Shows a path; the empty one is a dot. -/
def toText (p : Path) : String :=
  if p.slashes = 0 ∧ p.names = [] then "."
  else String.ofList (List.replicate p.slashes '/') ++ "/".intercalate p.names

/-- The path with more text after its last name. -/
def addSuffix (p : Path) (suffix : String) : Path :=
  match p.names.getLast? with
  | none => p
  | some name => { p with names := p.names.dropLast ++ [name ++ suffix] }

end Path

end Abacus
