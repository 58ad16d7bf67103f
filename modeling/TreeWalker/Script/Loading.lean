import TreeWalker.Script.Directory
import TreeWalker.Text.Lines
import TreeWalker.Text.Utf8

/-!
# Loading scripts

A script is a file in UTF-8.  Its lines may end as any system ends them; a mark
for the byte order is kept as a character of the text.
-/

namespace TreeWalker.Script

/-- Why a script cannot be loaded. -/
inductive LoadFault where
  | access (path : String) (fault : AccessFault)
  | encoding (fault : Text.Utf8Fault)
deriving DecidableEq, Repr

namespace LoadFault

/-- Wording of a fault. -/
def message : LoadFault → String
  | access path fault => fault.message path
  | encoding fault => fault.message

end LoadFault

/-- Text of a file with the given bytes. -/
def text (bytes : Bytes) : Except Text.Utf8Fault (List Char) :=
  (Text.decodeUtf8 bytes).map Text.normalizeEnds

/-- Text of the file with the given path. -/
def load (files : Files) (path : String) : Except LoadFault (List Char) :=
  match files path with
  | .error fault => .error (.access path fault)
  | .ok bytes => (text bytes).mapError .encoding

end TreeWalker.Script
