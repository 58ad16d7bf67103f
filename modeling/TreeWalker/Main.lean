import TreeWalker.CommandLine.Program

/-!
# Running the program

The outer layer reads the script or the lines of the prompt, and writes what the
program answers.  At the prompt each answer is written before the next line is
read.
-/

namespace TreeWalker.CommandLine

/-- Rounds that a loop is given; no machine lives to see the end of them. -/
def practicalRounds : Nat :=
  Nat.pow 2 64

/-- Text in bold red on a terminal. -/
def emphasize (text : String) : String :=
  "\x1b[1m\x1b[31m" ++ text ++ "\x1b[0m"

/-- The system that the program is run on, with a terminal that shows colors. -/
def practicalHost : Host where
  limits := .practical
  colored := emphasize

/-- Exit status for a failure that nothing takes care of. -/
def failureStatus : UInt32 :=
  1

/-- Short text of a failure. -/
def Failure.message : Failure → String
  | access path fault => fault.message path
  | rendering (.misplaced node) | abort (.misplaced node) => node.message
  | rendering .overNested | abort .overNested => Evaluation.nestingMessage
  | abort (.fault _ fault) => fault.message
  | abort (.scope fault) => fault.message
  | abort .unfinished => "Loop not finished."

/-- Write a failure to the standard error. -/
def writeFailure (failure : Failure) : IO UInt32 := do
  (← IO.getStderr).putStr (failure.message ++ "\n")
  return failureStatus

/-- Write a transcript, and give its exit status. -/
def writeTranscript (transcript : Transcript) : IO UInt32 := do
  (← IO.getStdout).putStr transcript.stdout
  (← IO.getStderr).putStr transcript.stderr
  match transcript.ending with
  | .exit status => return status.toUInt32
  | .failure failure => writeFailure failure

/-- Error number of the system for a directory that is opened as a file. -/
def isDirectoryNumber : UInt32 :=
  21

/-- Open a file of the system. -/
def openFile (path : String) : IO (Except Script.AccessFault Script.Bytes) := do
  try
    let bytes ← IO.FS.readBinFile path
    return .ok bytes.toList
  catch
    | .noFileOrDirectory .. => return .error .missing
    | .inappropriateType _ number _ =>
      return .error (if number = isDirectoryNumber then .isDirectory else .notDirectory)
    | .invalidArgument .. => return .error .nullCharacter
    | .permissionDenied .. => return .error .denied
    | error => throw error

/-- Treat lines of the prompt until it is left. -/
partial def converse (settings : Settings) (pending : List (List Char))
    (machine : Evaluation.Machine) : IO UInt32 := do
  let stdout ← IO.getStdout
  match pending with
  | [] =>
    stdout.flush
    let chunk ← (← IO.getStdin).getLine
    if chunk.isEmpty then
      stdout.putStr Prompt.farewell
      return 0
    converse settings (Text.readableLines (Text.normalizeEnds chunk.toList)) machine
  | line :: rest =>
    match Prompt.reply practicalHost practicalRounds settings line machine with
    | .leave => return 0
    | .answer out err next =>
      stdout.putStr out
      (← IO.getStderr).putStr err
      stdout.putStr Prompt.invitation
      converse settings rest next
    | .failure out err abort =>
      stdout.putStr out
      (← IO.getStderr).putStr err
      writeFailure (.abort abort)

/-- Greet, and treat the lines of the standard input. -/
def prompt (settings : Settings) : IO UInt32 := do
  (← IO.getStdout).putStr (Prompt.greeting settings ++ Prompt.invitation)
  converse settings [] (.initial settings.debug)

end TreeWalker.CommandLine

open TreeWalker TreeWalker.CommandLine in
/-- Run the program with the given arguments. -/
def main (arguments : List String) : IO UInt32 := do
  match Request.of arguments with
  | .proceed settings =>
    match settings.namedScript with
    | none => prompt settings
    | some name =>
      let opened ← openFile (Script.tidy name)
      writeTranscript (program practicalHost practicalRounds (fun _ => opened) [] arguments)
  | _ =>
    writeTranscript (program practicalHost practicalRounds (fun _ => .error .missing) [] arguments)
