/-!
# Paths

A path is a list of names with slashes between them.  Two slashes in a row, a
slash at the end and the name `.` add nothing to where a path leads, and a tidy
path has none of them.  Two slashes at the very start are a root of their own;
three or more are the same as one.
-/

namespace TreeWalker.Script

/-- Name of an entry of a directory. -/
abbrev Name :=
  List Char

/-- The names of a path; a name is empty where two slashes meet and where the
path begins or ends with a slash. -/
def names (path : String) : List Name :=
  path.toList.splitOn '/'

/-- Whether a name stands for the directory it is looked up in. -/
def staysPut (name : Name) : Bool :=
  name == [] || name == ['.']

/-- The slashes that a path begins with, as far as they matter. -/
def root (path : List Char) : List Char :=
  match path with
  | '/' :: '/' :: '/' :: _ => ['/']
  | '/' :: '/' :: _ => ['/', '/']
  | '/' :: _ => ['/']
  | _ => []

/-- A path that leads to the same place, without anything that adds nothing. -/
def tidy (path : String) : String :=
  let kept := (names path).filter fun name => !staysPut name
  let tidied := root path.toList ++ List.intercalate ['/'] kept
  if tidied.isEmpty then "." else String.ofList tidied

end TreeWalker.Script
