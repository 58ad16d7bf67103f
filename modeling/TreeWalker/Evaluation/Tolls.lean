import TreeWalker.Evaluation.Parts

/-!
# Runs whose trace takes levels

A line of the trace is written by calls of its own, and these take levels too: a run that
is traced may be given up for its nesting in the middle of such a line.  The line about a
scope is written after that scope was opened and before the part of the block that is sure
to discard it again.  So there a run that is given up leaves the scope open.
-/

namespace TreeWalker.Evaluation

/-- Levels that the lines of a trace take. -/
structure Tolls where
  /-- For the line about a statement. -/
  executing : Nat
  /-- For the line about a scope that was opened. -/
  entering : Nat
  /-- For the line about the scope that is current again. -/
  leaving : Nat
deriving DecidableEq

namespace Tolls

/-- Lines that take no levels. -/
def free : Tolls :=
  ⟨0, 0, 0⟩

end Tolls

/-- Give up a run if a line is wanted that takes more levels than there are. -/
def spend (toll levels : Nat) : Run Unit := do
  if (← get).tracing && decide (levels < toll) then throw .overNested

/-- Open a scope inside the current one, make it the current one and tell of it. -/
def enterTolled (toll levels : Nat) : Run Unit := do
  let machine ← get
  let (handle, arena) ← onScopes (machine.arena.nest machine.current)
  set { machine with arena, current := handle }
  spend toll levels
  if machine.tracing then
    let depth ← onScopes (arena.depth handle)
    trace ("  Entered scope " ++ toString handle ++ " (depth " ++ toString depth ++ ")")

/-- Make a scope the current one, discard the one that was and tell of it. -/
def leaveTolled (toll levels : Nat) (outer : Scope.Handle) : Run Unit := do
  let machine ← get
  set { machine with current := outer }
  let (_, arena) ← onScopes (machine.arena.discard machine.current)
  set { machine with arena, current := outer }
  spend toll levels
  trace ("  Restored scope " ++ toString outer)

/-- Run a computation in a scope of its own.  It is sure to be discarded at the end only once
the line about it is written. -/
def inTolledScope (tolls : Tolls) (levels : Nat) (body : Run Unit) : Run Unit := do
  let outer := (← get).current
  enterTolled tolls.entering levels
  andFinally body (leaveTolled tolls.leaving levels outer)

/-- Effect of a statement, where the lines of the trace take levels. -/
def performTolled (tolls : Tolls) (rounds : Nat) : (levels : Nat) → Node → Run Unit
  | 0, _ => throw .overNested
  | levels + 1, node => do
    spend tolls.executing levels
    match node with
    | .blockStmt body =>
      trace ("Executing: " ++ (Node.blockStmt body).kindName)
      inTolledScope tolls levels (inOrder (performTolled tolls rounds levels) body)
    | other => performBy rounds (evaluate levels) (performTolled tolls rounds levels) other

/-- Run the statements of a program, where the lines of the trace take levels. -/
def runTolled (tolls : Tolls) (levels rounds : Nat) : List Node → Run (Option Diagnostic) :=
  runProgramBy (performTolled tolls rounds levels)

end TreeWalker.Evaluation
