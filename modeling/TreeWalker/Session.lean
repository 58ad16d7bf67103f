import TreeWalker.Evaluation.Tolls
import TreeWalker.Limits
import TreeWalker.Reading

/-!
# Sessions

A session runs one source after another on one machine, so later sources see
what earlier ones have declared.  A source is run only if it is clean.  At a
prompt, a source that is a single expression has its value shown.
-/

namespace TreeWalker

/-- How a source is treated. -/
structure Treatment where
  /-- Whether the value of a single expression is shown. -/
  atPrompt : Bool
  /-- Whether a clean source is run. -/
  execute : Bool
deriving DecidableEq

namespace Treatment

/-- A script is run, and shows nothing on its own. -/
def script : Treatment :=
  ⟨false, true⟩

/-- A line at a prompt. -/
def prompt : Treatment :=
  ⟨true, true⟩

/-- A source that is only read. -/
def readOnly : Treatment :=
  ⟨false, false⟩

end Treatment

/-- What came of a source. -/
structure Outcome where
  statements : List Node
  scanDiagnostics : List Diagnostic
  parseDiagnostics : List Diagnostic
  runtimeDiagnostic : Option Diagnostic

/-- How a program ends, as far as its exit status tells. -/
inductive Verdict where
  | success
  | invalidSource
  | unreadable
  | aborted
deriving DecidableEq, Repr

namespace Verdict

/-- Exit status of a verdict. -/
def status : Verdict → Nat
  | success => 0
  | invalidSource => 65
  | unreadable => 66
  | aborted => 70

end Verdict

namespace Outcome

/-- Problems of the source, in the order in which they were found. -/
def diagnostics (outcome : Outcome) : List Diagnostic :=
  outcome.scanDiagnostics ++ outcome.parseDiagnostics ++ outcome.runtimeDiagnostic.toList

/-- Verdict on a source: a problem of its text counts before one of its run. -/
def verdict (outcome : Outcome) : Verdict :=
  if !outcome.scanDiagnostics.isEmpty || !outcome.parseDiagnostics.isEmpty then .invalidSource
  else if outcome.runtimeDiagnostic.isSome then .aborted
  else .success

/-- Report of all problems of the given source, in the given colour. -/
def reportText (outcome : Outcome) (paint : String → String) (source : List Char) : String :=
  Diagnostic.reportText paint (some source) outcome.diagnostics

end Outcome

namespace Session

open Evaluation

/-- The statements to run: at a prompt, a single expression is printed. -/
def prepared (treatment : Treatment) (statements : List Node) : List Node :=
  match treatment.atPrompt, statements with
  | true, [.exprStmt expr] => [.printStmt expr]
  | _, statements => statements

/-- Read a source and, if it is clean and to be run, run its statements in the given way. -/
def runBy (run : List Node → Run (Option Diagnostic)) (levels : Nat) (treatment : Treatment)
    (source : List Char) : Run Outcome := do
  let reading := Reading.ofSource levels source
  modify (·.note reading.trace)
  if reading.isClean && treatment.execute then
    let statements := prepared treatment reading.statements
    let problem ← run statements
    return ⟨statements, [], [], problem⟩
  else
    return ⟨reading.statements, reading.scan.diagnostics, reading.parsed.diagnostics, none⟩

/-- Read a source and, if it is clean and to be run, run it. -/
def run (limits : Limits) (rounds : Nat) (treatment : Treatment) (source : List Char) :
    Run Outcome :=
  runBy (runProgram limits.running rounds) limits.parsing treatment source

/-- Read a source and, if it is clean and to be run, run it, where the lines of the trace take
levels. -/
def runTolled (tolls : Tolls) (limits : Limits) (rounds : Nat) (treatment : Treatment)
    (source : List Char) : Run Outcome :=
  runBy (Evaluation.runTolled tolls limits.running rounds) limits.parsing treatment source

end Session

end TreeWalker
