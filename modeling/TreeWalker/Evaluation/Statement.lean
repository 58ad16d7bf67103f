import TreeWalker.Evaluation.Expression

/-!
# Effects of statements

A block runs in a scope of its own.  A loop is given a number of rounds; one
that needs more leaves the run unfinished, and one that comes to its end does so
with the same effect under any larger number.
-/

namespace TreeWalker.Evaluation

/-- Run a body as long as a test passes. -/
def whileTruthy (test : Run Value) (body : Run Unit) : (rounds : Nat) → Run Unit
  | 0 => throw .unfinished
  | rounds + 1 => do
    let outcome ← test
    if outcome.truthy then
      body
      whileTruthy test body rounds
    else
      return ()

/-- Run statements one after the other. -/
def inOrder (run : Node → Run Unit) : List Node → Run Unit
  | [] => return ()
  | statement :: statements => do
    run statement
    inOrder run statements

/-- Value that an initializer gives; nil if there is none. -/
def initialValue (levels : Nat) : Node → Run Value
  | .absent => return .nil
  | initializer => evaluate levels initializer

/-- Effect of a statement that is nested at most so many levels deep, with so
many rounds for each of its loops. -/
def perform (rounds : Nat) : (levels : Nat) → Node → Run Unit
  | 0, _ => throw .overNested
  | levels + 1, node => do
    trace ("Executing: " ++ node.kindName)
    match node with
    | .exprStmt expr =>
      let _ ← evaluate levels expr
    | .printStmt expr =>
      let value ← evaluate levels expr
      printLine value.display
    | .varStmt name initializer =>
      let value ← initialValue levels initializer
      declareVariable name value
    | .blockStmt body => inOwnScope (inOrder (perform rounds levels) body)
    | .ifStmt condition thenBranch elseBranch =>
      let outcome ← evaluate levels condition
      if outcome.truthy then
        perform rounds levels thenBranch
      else
        match elseBranch with
        | .absent => return ()
        | present => perform rounds levels present
    | .whileStmt condition body =>
      whileTruthy (evaluate levels condition) (perform rounds levels body) rounds
    | other => throw (.misplaced (.statement other.kindName))

end TreeWalker.Evaluation
