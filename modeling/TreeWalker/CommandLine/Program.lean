import TreeWalker.CommandLine.Prompt
import TreeWalker.CommandLine.Scripts

/-!
# The program

The whole program as a function of its arguments, of the system that it runs on, of the
files it can open and of the lines it can read.
-/

namespace TreeWalker.CommandLine

/-- What the program does with settings that make sense. -/
def proceed (host : Host) (rounds : Nat) (files : Script.Files) (lines : List (List Char))
    (settings : Settings) : Transcript :=
  match settings.namedScript with
  | none => Prompt.run host rounds settings lines
  | some name =>
    if settings.parse || settings.rpn then showScript host rounds files settings name
    else runScript host rounds files settings name

/-- What the program does when it is called with the given arguments. -/
def program (host : Host) (rounds : Nat) (files : Script.Files) (lines : List (List Char))
    (arguments : List String) : Transcript :=
  match Request.of arguments with
  | .help => ⟨helpText, "", .exit 0⟩
  | .version => ⟨versionText ++ "\n", "", .exit 0⟩
  | .invalid fault => ⟨"", usageReport fault, .exit usageStatus⟩
  | .proceed settings => proceed host rounds files lines settings

end TreeWalker.CommandLine
