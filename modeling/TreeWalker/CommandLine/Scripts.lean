import TreeWalker.CommandLine.Host
import TreeWalker.CommandLine.Transcript
import TreeWalker.CommandLine.Usage
import TreeWalker.Session

/-!
# Scripts from the command line

A script is run, or its statements are shown without being run.  A script that
cannot be read because there is no such file, because reading it is not permitted, or
because it is not text, gets a hint; other failures of opening it are not taken care of.
-/

namespace TreeWalker.CommandLine

open Evaluation

/-- Output for a script that cannot be read. -/
def unreadable (problem hint : String) : Transcript :=
  ⟨linesOf ["Error: " ++ problem, "  Hint: " ++ hint], "", .exit Verdict.unreadable.status⟩

/-- Output for a script that cannot be loaded. -/
def loadFailure (name : String) : Script.LoadFault → Transcript
  | .access _ .missing =>
    unreadable ("Script file '" ++ name ++ "' not found")
      "Check the file path and make sure the file exists"
  | .access _ .denied =>
    unreadable ("Permission denied reading '" ++ name ++ "'")
      "Make sure you have read permissions for this file"
  | .encoding fault =>
    unreadable ("Cannot decode file '" ++ name ++ "': " ++ fault.message)
      "Make sure the file is a text file with UTF-8 encoding"
  | .access path fault => ⟨"", "", .failure (.access path fault)⟩

/-- Do something with the text of a script. -/
def withScript (files : Script.Files) (name : String) (run : List Char → Transcript) :
    Transcript :=
  match Script.load files (Script.tidy name) with
  | .ok source => run source
  | .error fault => loadFailure name fault

/-- Treat a source on a new machine, and write what comes of it. -/
def treat (host : Host) (rounds : Nat) (settings : Settings) (treatment : Treatment)
    (source : List Char) (shown : Outcome → Transcript) : Transcript :=
  match Session.run host.limits rounds treatment source (Machine.initial settings.debug) with
  | .error abort machine =>
    ⟨linesOf machine.output.toList, linesOf machine.trace.toList, .failure (.abort abort)⟩
  | .ok outcome machine =>
    let transcript := (shown outcome).after (linesOf machine.output.toList)
      (linesOf machine.trace.toList)
    match transcript.ending with
    | .failure _ => transcript
    | .exit _ =>
      { transcript with
        stderr := transcript.stderr ++ outcome.reportText (host.paint settings) source
        ending := .exit outcome.verdict.status }

/-- A transcript of nothing. -/
def silence : Transcript :=
  ⟨"", "", .exit Verdict.success.status⟩

/-- Run a script. -/
def runScript (host : Host) (rounds : Nat) (files : Script.Files) (settings : Settings)
    (name : String) : Transcript :=
  withScript files name fun source => treat host rounds settings .script source fun _ => silence

/-- How a statement is shown: as an outline, or by its expression in reverse
Polish order if it is one. -/
def showStatement (limits : Limits) (rpn : Bool) (statement : Node) : Rendered :=
  match rpn, statement.soleExpression? with
  | false, _ => statement.outline limits.stride limits.toll limits.outlining 0
  | true, some expr => (expr.reversePolish limits.toll limits.polishing).map (· ++ "\n")
  | true, none => pure ""

/-- Show statements up to the first that cannot be shown. -/
def showStatements (limits : Limits) (rpn : Bool) : List Node → Transcript
  | [] => silence
  | statement :: statements =>
    match showStatement limits rpn statement with
    | .ok text => (showStatements limits rpn statements).after text ""
    | .error fault => ⟨"", "", .failure (.rendering fault)⟩

/-- Show the statements of a script. -/
def showScript (host : Host) (rounds : Nat) (files : Script.Files) (settings : Settings)
    (name : String) : Transcript :=
  withScript files name fun source =>
    treat host rounds settings .readOnly source fun outcome =>
      showStatements host.limits settings.rpn outcome.statements

end TreeWalker.CommandLine
