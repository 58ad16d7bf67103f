import TreeWalker.Evaluation.Program

/-!
# Runs in terms of parts

What a tree comes to, in terms of the runs of the trees that it is made of, and what a program
comes to in terms of the runs of its statements.  The parts may be run in any way.
-/

namespace TreeWalker.Evaluation

/-- Value of an expression, when the expressions it is made of have their values in
the given way. -/
def evaluateBy (value : Node → Run Value) : Node → Run Value
  | .literal constant => return constant
  | .grouping inner => value inner
  | .unary operator operand => do
    let operand ← value operand
    atToken operator (applyUnary operator operand)
  | .binary left operator right => do
    let left ← value left
    let right ← value right
    atToken operator (applyBinary operator left right)
  | .logical left operator right => do
    let left ← value left
    if decides operator left then return left else value right
  | .reference name => readVariable name
  | .assign name assigned => do
    let assigned ← value assigned
    writeVariable name assigned
    return assigned
  | other => throw (.misplaced (.expression other.kindName))

/-- Effect of a statement, when the trees it is made of are run in the given ways. -/
def performBy (rounds : Nat) (value : Node → Run Value) (effect : Node → Run Unit)
    (node : Node) : Run Unit := do
  trace ("Executing: " ++ node.kindName)
  match node with
  | .exprStmt expr =>
    let _ ← value expr
  | .printStmt expr =>
    let shown ← value expr
    printLine shown.display
  | .varStmt name .absent => declareVariable name .nil
  | .varStmt name initializer =>
    let initial ← value initializer
    declareVariable name initial
  | .blockStmt body => inOwnScope (inOrder effect body)
  | .ifStmt condition thenBranch elseBranch =>
    let outcome ← value condition
    if outcome.truthy then
      effect thenBranch
    else
      match elseBranch with
      | .absent => return ()
      | present => effect present
  | .whileStmt condition body => whileTruthy (value condition) (effect body) rounds
  | other => throw (.misplaced (.statement other.kindName))

/-- Run the statements of a program, each in the given way. -/
def runProgramBy (effect : Node → Run Unit) : List Node → Run (Option Diagnostic)
  | [] => return none
  | statement :: statements => fun machine =>
    match effect statement machine with
    | .ok () after => runProgramBy effect statements after
    | .error abort after => diagnose statement abort after

end TreeWalker.Evaluation
