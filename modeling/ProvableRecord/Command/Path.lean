import ProvableRecord.Command.Workspace

/-!
# Paths

A path is a text whose names are separated by slashes.  Paths are printed as they were given, so
joining does not tidy them.
-/

namespace ProvableRecord.Command.Path

/-- Whether a path starts at the top of the file system. -/
def isAbsolute (path : String) : Bool := path.toList.head? == some '/'

/-- The path of a file in a directory.  A slash is put between them unless there is one, and an
absolute name stands for itself. -/
def join (directory name : String) : String :=
  if isAbsolute name || directory.isEmpty then name
  else if directory.toList.getLast? == some '/' then directory ++ name
  else directory ++ "/" ++ name

/-- The parts of a row of characters between slashes. -/
def split : List Char → List (List Char)
  | [] => [[]]
  | c :: cs =>
    match c, split cs with
    | '/', parts => [] :: parts
    | c, part :: parts => (c :: part) :: parts
    | c, [] => [[c]]

/-- The names of a path in order; empty between adjacent slashes. -/
def names (path : String) : List String := (split path.toList).map String.ofList

/-- The names without the empty ones at the end, which stand for slashes there. -/
def dropEmptyEnd (names : List String) : List String :=
  (names.reverse.dropWhile (· = "")).reverse

/-- The names of a path that lead somewhere, which empty names and dots do not. -/
def steps (path : String) : List String :=
  (names path).filter fun name => name ≠ "" ∧ name ≠ "."

/-- The paths of the directories around the one that a path names, from the nearest one outwards.
The directory where the path starts is not among them. -/
def enclosing (path : String) : List String :=
  let front := if isAbsolute path then "/" else ""
  let steps := steps path
  (List.range (steps.length - 1)).reverse.map fun n =>
    front ++ String.intercalate "/" (steps.take (n + 1))

end ProvableRecord.Command.Path
