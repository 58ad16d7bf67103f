import TreeWalker.CommandLine.Host
import TreeWalker.CommandLine.Transcript
import TreeWalker.CommandLine.Usage
import TreeWalker.Session

/-!
# The prompt

At the prompt every line is a source of its own, and all of them run in one
session.  Problems are reported on the standard output, and the session goes on.
It ends with the line `exit` or when there are no more lines.
-/

namespace TreeWalker.CommandLine.Prompt

open Evaluation

/-- What is written before the first line is read. -/
def greeting (settings : Settings) : String :=
  linesOf ([versionText ++ " - Interactive Mode",
    "Type 'exit' or press Ctrl-D to quit",
    "Readline enabled: use up/down for history"] ++
    (if settings.debug then ["Debug mode enabled"] else []) ++ [""])

/-- What is written before each line is read. -/
def invitation : String :=
  "> "

/-- What is written when there are no more lines. -/
def farewell : String :=
  "\nGoodbye!\n"

/-- What comes of a line: the end of the session, or output and the machine for
the next line. -/
inductive Reply where
  | leave
  | answer (stdout stderr : String) (machine : Machine)
  | failure (stdout stderr : String) (abort : Abort)

/-- The line that ends a session, without the white space around it. -/
def exitLine : List Char :=
  ['e', 'x', 'i', 't']

/-- Treat a line. -/
def reply (host : Host) (rounds : Nat) (settings : Settings) (line : List Char)
    (machine : Machine) : Reply :=
  let content := Text.trim line
  if content = exitLine then .leave
  else if content.isEmpty then .answer "" "" machine
  else
    match Session.run host.limits rounds .prompt line machine with
    | .ok outcome after =>
      .answer (linesOf after.output.toList ++ outcome.reportText (host.paint settings) line)
        (linesOf after.trace.toList) { after with output := #[], trace := #[] }
    | .error abort after =>
      .failure (linesOf after.output.toList) (linesOf after.trace.toList) abort

/-- A session over the given lines. -/
def session (host : Host) (rounds : Nat) (settings : Settings) :
    List (List Char) → Machine → Transcript
  | [], _ => ⟨invitation ++ farewell, "", .exit Verdict.success.status⟩
  | line :: lines, machine =>
    match reply host rounds settings line machine with
    | .leave => ⟨invitation, "", .exit Verdict.success.status⟩
    | .answer stdout stderr next =>
      (session host rounds settings lines next).after (invitation ++ stdout) stderr
    | .failure stdout stderr abort =>
      ⟨invitation ++ stdout, stderr, .failure (.abort abort)⟩

/-- A session from its greeting on. -/
def run (host : Host) (rounds : Nat) (settings : Settings) (lines : List (List Char)) :
    Transcript :=
  (session host rounds settings lines (.initial settings.debug)).after (greeting settings) ""

end TreeWalker.CommandLine.Prompt
