import TreeWalker.Script.Path
import TreeWalker.Text.Quoted

/-!
# Files

Opening a file by its path gives its bytes or a reason why it cannot be opened.
A `Directory` is the working directory as a value, with its files, some of which may
not be permitted to be read, and the directories that they lie in.  Nothing is known of
what lies outside of it, except that there are directories around it.
-/

namespace TreeWalker.Script

/-- Why a file cannot be opened. -/
inductive AccessFault where
  | missing
  | denied
  | isDirectory
  | notDirectory
  | nullCharacter
deriving DecidableEq, Repr

namespace AccessFault

/-- Wording of a fault for the path that was to be opened. -/
def message (path : String) : AccessFault → String
  | missing => "[Errno 2] No such file or directory: " ++ Text.quoted path
  | denied => "[Errno 13] Permission denied: " ++ Text.quoted path
  | isDirectory => "[Errno 21] Is a directory: " ++ Text.quoted path
  | notDirectory => "[Errno 20] Not a directory: " ++ Text.quoted path
  | nullCharacter => "embedded null byte"

end AccessFault

/-- Bytes of a file. -/
abbrev Bytes :=
  List UInt8

/-- The files that can be opened, by their paths. -/
abbrev Files :=
  String → Except AccessFault Bytes

/-- A directory: the files in it and in the directories below it, with their bytes if
reading them is permitted. -/
structure Directory where
  files : List (List Name × Option Bytes)

/-- A place that a path leads to. -/
inductive Place where
  | within (names : List Name)
  | outside

/-- What stands at a place. -/
inductive Standing where
  | file (bytes : Option Bytes)
  | directory
  | nothing

namespace Place

/-- The directory around a place. -/
def around : Place → Place
  | within [] | outside => outside
  | within names => within names.dropLast

/-- The entry with a given name of the directory at a place. -/
def entry? (name : Name) : Place → Option Place
  | within names => some (within (names ++ [name]))
  | outside => none

end Place

namespace Directory

/-- The directory that holds files with the given paths, all of which may be read. -/
def ofFiles (files : List (String × Bytes)) : Directory :=
  ⟨files.map fun file => ((names file.1).filter (!staysPut ·), some file.2)⟩

/-- What stands at a place. -/
def standing (directory : Directory) : Place → Standing
  | .outside => .directory
  | .within names =>
    match directory.files.find? fun file => file.1 == names with
    | some file => .file file.2
    | none =>
      if names.isEmpty || directory.files.any fun file => names.isPrefixOf file.1 then .directory
      else .nothing

/-- Follow names from a place, and open the file there. -/
def follow (directory : Directory) : Place → List Name → Except AccessFault Bytes
  | place, [] =>
    match directory.standing place with
    | .file (some bytes) => .ok bytes
    | .file none => .error .denied
    | .directory => .error .isDirectory
    | .nothing => .error .missing
  | place, name :: rest =>
    match directory.standing place with
    | .file _ => .error .notDirectory
    | .nothing => .error .missing
    | .directory =>
      if staysPut name then directory.follow place rest
      else if name = ['.', '.'] then directory.follow place.around rest
      else
        match place.entry? name with
        | some entry => directory.follow entry rest
        | none => .error .missing

/-- Where a path begins. -/
def start (path : String) : Place :=
  if (root path.toList).isEmpty then .within [] else .outside

/-- The files of a directory.  No file has an empty path, and no path holds a
null character. -/
def access (directory : Directory) : Files := fun path =>
  if path.toList.contains '\x00' then .error .nullCharacter
  else if path.isEmpty then .error .missing
  else directory.follow (start path) (names path)

end Directory

end TreeWalker.Script
