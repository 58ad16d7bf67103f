import TreeWalker.Evaluation.Machine
import TreeWalker.Script.Loading
import TreeWalker.Tree.Rendering

/-!
# Transcripts

What a program writes to its two outputs, and how it ends: with an exit status,
or with a failure that nothing in the program takes care of.
-/

namespace TreeWalker.CommandLine

/-- A failure that ends the program as it is. -/
inductive Failure where
  | access (path : String) (fault : Script.AccessFault)
  | rendering (fault : RenderFault)
  | abort (abort : Evaluation.Abort)
deriving DecidableEq

/-- How a program ends. -/
inductive Ending where
  | exit (status : Nat)
  | failure (failure : Failure)
deriving DecidableEq

/-- Everything that a program writes, and its end. -/
structure Transcript where
  stdout : String
  stderr : String
  ending : Ending
deriving DecidableEq

namespace Transcript

/-- A transcript that continues after other output. -/
def after (stdout stderr : String) (transcript : Transcript) : Transcript :=
  { transcript with stdout := stdout ++ transcript.stdout, stderr := stderr ++ transcript.stderr }

end Transcript

end TreeWalker.CommandLine
