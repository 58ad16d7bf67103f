import TreeWalker.Diagnostic
import TreeWalker.Evaluation.Statement

/-!
# Running programs

The statements of a program run in order until one of them is aborted.  A fault
of the program and nesting that is too deep end the run with a diagnostic;
nesting has no token to blame, so the first line of the statement stands for it.
-/

namespace TreeWalker.Evaluation

/-- Wording of the diagnostic for nesting that is too deep. -/
def nestingMessage : String :=
  "Nesting too deep."

/-- End a run with a diagnostic, and note it in the trace in the given words. -/
def stopWith (line : Int) (message noted : String) : Run (Option Diagnostic) := do
  trace ("Runtime error at line " ++ toString line ++ ": " ++ noted)
  return some ⟨.runtime, line, "", message⟩

/-- The diagnostic for an aborted statement, if the abort can be told as one. -/
def diagnose (statement : Node) : Abort → Run (Option Diagnostic)
  | .fault line fault => stopWith line fault.message fault.message
  | .overNested => stopWith (statement.leadingLine 1) nestingMessage "nesting too deep"
  | abort => throw abort

/-- Run the statements of a program, with so many levels for what is nested in each and
so many rounds for each loop.  The result is the diagnostic of the problem that ended the
run early, if one did. -/
def runProgram (levels rounds : Nat) : List Node → Run (Option Diagnostic)
  | [] => return none
  | statement :: statements => fun machine =>
    match perform rounds levels statement machine with
    | .ok () after => runProgram levels rounds statements after
    | .error abort after => diagnose statement abort after

/-- Value of an expression, outside of any program. -/
def valueOf (levels : Nat) (expr : Node) : Run Value :=
  evaluate levels expr

end TreeWalker.Evaluation
