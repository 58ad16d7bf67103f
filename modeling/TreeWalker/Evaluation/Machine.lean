import TreeWalker.Evaluation.Operation
import TreeWalker.Scope.Arena
import TreeWalker.Tree.Node

/-!
# The evaluation machine

A machine holds the scopes of a session, the current one among them, the lines
printed so far and the lines of the trace, which is kept only if it is wanted.
A run is aborted by a fault of the program, by a tree that is not well formed,
by a scope that is not live, by nesting that is too deep, or because a loop has
not come to its end within the rounds it was given.  An aborted run leaves the
machine as it was at that moment.
-/

namespace TreeWalker.Evaluation

/-- State of a session. -/
structure Machine where
  arena : Scope.Arena
  current : Scope.Handle
  output : Array String
  trace : Array String
  tracing : Bool
deriving DecidableEq

namespace Machine

/-- A machine at the start of a session. -/
def initial (tracing : Bool) : Machine :=
  ⟨.initial, Scope.globalHandle, #[], #[], tracing⟩

/-- Add lines to the trace if it is wanted. -/
def note (machine : Machine) (lines : List String) : Machine :=
  if machine.tracing then { machine with trace := machine.trace ++ lines } else machine

/-- Print a line. -/
def print (machine : Machine) (line : String) : Machine :=
  { machine with output := machine.output.push line }

end Machine

/-- Why a run ends before its program does. -/
inductive Abort where
  | fault (line : Int) (fault : Fault)
  | misplaced (node : Misplaced)
  | scope (fault : Scope.Fault)
  | overNested
  | unfinished
deriving DecidableEq

/-- A computation on a machine. -/
abbrev Run :=
  EStateM Abort Machine

/-- Result of an operation of a token. -/
def atToken {α : Type} (token : Token) : Except Fault α → Run α
  | .ok a => pure a
  | .error fault => throw (.fault token.line fault)

/-- Result of an operation on scopes. -/
def onScopes {α : Type} : Except Scope.Fault α → Run α
  | .ok a => pure a
  | .error fault => throw (.scope fault)

/-- Add a line to the trace. -/
def trace (line : String) : Run Unit :=
  modify (·.note [line])

/-- Print a line. -/
def printLine (line : String) : Run Unit :=
  modify (·.print line)

/-- Value of a variable in the current scope. -/
def readVariable (name : Token) : Run Value := do
  let machine ← get
  match ← onScopes (machine.arena.lookup machine.current name.lexeme) with
  | some value => return value
  | none => atToken name (.error (.undefined name.lexeme))

/-- Give a declared variable another value. -/
def writeVariable (name : Token) (value : Value) : Run Unit := do
  let machine ← get
  match ← onScopes (machine.arena.update machine.current name.lexeme value) with
  | some arena => set { machine with arena }
  | none => atToken name (.error (.undefined name.lexeme))

/-- Declare a variable in the current scope. -/
def declareVariable (name : Token) (value : Value) : Run Unit := do
  let machine ← get
  let arena ← onScopes (machine.arena.declare machine.current name.lexeme value)
  set { machine with arena }

/-- Open a scope inside the current one and make it the current one. -/
def enterScope : Run Unit := do
  let machine ← get
  let (handle, arena) ← onScopes (machine.arena.nest machine.current)
  set { machine with arena, current := handle }
  if machine.tracing then
    let depth ← onScopes (arena.depth handle)
    trace ("  Entered scope " ++ toString handle ++ " (depth " ++ toString depth ++ ")")

/-- Make a scope the current one, and discard the one that was. -/
def leaveScope (outer : Scope.Handle) : Run Unit := do
  let machine ← get
  set { machine with current := outer }
  let (_, arena) ← onScopes (machine.arena.discard machine.current)
  set { machine with arena, current := outer }
  trace ("  Restored scope " ++ toString outer)

/-- Run a computation and then, whether it was aborted or not, another one. -/
def andFinally (body closing : Run Unit) : Run Unit := fun machine =>
  match body machine with
  | .ok () after => closing after
  | .error abort after =>
    match closing after with
    | .ok () closed => .error abort closed
    | .error failure closed => .error failure closed

/-- Run a computation in a scope of its own, which is discarded at the end,
however the computation ends. -/
def inOwnScope (body : Run Unit) : Run Unit := do
  let outer := (← get).current
  enterScope
  andFinally body (leaveScope outer)

end TreeWalker.Evaluation
