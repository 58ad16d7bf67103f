import Mathlib.Data.Finmap
import TreeWalker.Evaluation.Operation
import TreeWalker.Tree.Node

/-!
# Programs in lexical scopes

The meaning of expressions and statements, without handles and without an
arena.  An environment is a list of frames, the innermost first, and a frame is
a finite map from names to values.  A variable is that of the first frame that
binds its name; a declaration binds its name in the first frame; a block has an
empty frame of its own.

The rules say which value an expression has and in which environment it leaves
the program, or with which failure it ends the program.  Operands come from left
to right, and the first failure is that of the whole.  A program that loops
forever has no derivation.
-/

namespace TreeWalker.Reference

/-! ## Environments -/

/-- The variables of one scope. -/
abbrev Frame :=
  Finmap fun _ : String => Value

/-- The frames around a place in a program, from the innermost. -/
abbrev Environment :=
  List Frame

/-- The value of a variable. -/
def read? (name : String) : Environment → Option Value
  | [] => none
  | frame :: frames =>
    match frame.lookup name with
    | some value => some value
    | none => read? name frames

/-- Give a variable another value, in the first frame that binds it. -/
def write? (name : String) (value : Value) : Environment → Option Environment
  | [] => none
  | frame :: frames =>
    match frame.lookup name with
    | some _ => some (frame.insert name value :: frames)
    | none => (write? name value frames).map (frame :: ·)

/-- Bind a variable in the innermost frame. -/
def declare (name : String) (value : Value) : Environment → Environment
  | [] => []
  | frame :: frames => frame.insert name value :: frames

/-! ## Outcomes -/

/-- Why a program ends early: a fault, and the line of the token it is about. -/
structure Failure where
  line : Int
  fault : Evaluation.Fault
deriving DecidableEq

/-- A value, or the failure of the whole program. -/
abbrev Outcome (α : Type) :=
  Except Failure α

/-- What an operation of a token comes to. -/
def located {α : Type} (token : Token) : Except Evaluation.Fault α → Outcome α
  | .ok a => .ok a
  | .error fault => .error ⟨token.line, fault⟩

/-- What a reference to a variable comes to. -/
def referred (name : Token) (env : Environment) : Outcome Value :=
  match read? name.lexeme env with
  | some value => .ok value
  | none => .error ⟨name.line, .undefined name.lexeme⟩

/-! ## Expressions -/

/-- `Evaluates env expr env' outcome`: in the environment `env` the expression has
the outcome, and leaves the environment `env'`. -/
inductive Evaluates : Environment → Node → Environment → Outcome Value → Prop where
  | literal {env : Environment} {value : Value} : Evaluates env (.literal value) env (.ok value)
  | grouping {env env' : Environment} {inner : Node} {outcome : Outcome Value}
    (evaluates : Evaluates env inner env' outcome) :
    Evaluates env (.grouping inner) env' outcome
  | unary {env env' : Environment} {operator : Token} {operand : Node} {value : Value}
    (evaluates : Evaluates env operand env' (.ok value)) :
    Evaluates env (.unary operator operand) env'
      (located operator (Evaluation.applyUnary operator value))
  | unaryFails {env env' : Environment} {operator : Token} {operand : Node} {failure : Failure}
    (fails : Evaluates env operand env' (.error failure)) :
    Evaluates env (.unary operator operand) env' (.error failure)
  | binary {env env' env'' : Environment} {left right : Node} {operator : Token}
    {leftValue rightValue : Value} (leftEvaluates : Evaluates env left env' (.ok leftValue))
    (rightEvaluates : Evaluates env' right env'' (.ok rightValue)) :
    Evaluates env (.binary left operator right) env''
      (located operator (Evaluation.applyBinary operator leftValue rightValue))
  | binaryLeftFails {env env' : Environment} {left right : Node} {operator : Token}
    {failure : Failure} (fails : Evaluates env left env' (.error failure)) :
    Evaluates env (.binary left operator right) env' (.error failure)
  | binaryRightFails {env env' env'' : Environment} {left right : Node} {operator : Token}
    {leftValue : Value} {failure : Failure}
    (leftEvaluates : Evaluates env left env' (.ok leftValue))
    (fails : Evaluates env' right env'' (.error failure)) :
    Evaluates env (.binary left operator right) env'' (.error failure)
  | orLeft {env env' : Environment} {left right : Node} {operator : Token} {value : Value}
    (isOr : operator.kind = .keyword .kwOr) (evaluates : Evaluates env left env' (.ok value))
    (decided : value.truthy = true) :
    Evaluates env (.logical left operator right) env' (.ok value)
  | orRight {env env' env'' : Environment} {left right : Node} {operator : Token} {value : Value}
    {outcome : Outcome Value} (isOr : operator.kind = .keyword .kwOr)
    (leftEvaluates : Evaluates env left env' (.ok value)) (undecided : value.truthy = false)
    (rightEvaluates : Evaluates env' right env'' outcome) :
    Evaluates env (.logical left operator right) env'' outcome
  | andLeft {env env' : Environment} {left right : Node} {operator : Token} {value : Value}
    (isAnd : operator.kind = .keyword .kwAnd) (evaluates : Evaluates env left env' (.ok value))
    (decided : value.truthy = false) :
    Evaluates env (.logical left operator right) env' (.ok value)
  | andRight {env env' env'' : Environment} {left right : Node} {operator : Token} {value : Value}
    {outcome : Outcome Value} (isAnd : operator.kind = .keyword .kwAnd)
    (leftEvaluates : Evaluates env left env' (.ok value)) (undecided : value.truthy = true)
    (rightEvaluates : Evaluates env' right env'' outcome) :
    Evaluates env (.logical left operator right) env'' outcome
  | logicalFails {env env' : Environment} {left right : Node} {operator : Token}
    {failure : Failure} (fails : Evaluates env left env' (.error failure)) :
    Evaluates env (.logical left operator right) env' (.error failure)
  | reference {env : Environment} {name : Token} :
    Evaluates env (.reference name) env (referred name env)
  | assign {env env' env'' : Environment} {name : Token} {expr : Node} {value : Value}
    (evaluates : Evaluates env expr env' (.ok value))
    (written : write? name.lexeme value env' = some env'') :
    Evaluates env (.assign name expr) env'' (.ok value)
  | assignUndefined {env env' : Environment} {name : Token} {expr : Node} {value : Value}
    (evaluates : Evaluates env expr env' (.ok value))
    (unbound : write? name.lexeme value env' = none) :
    Evaluates env (.assign name expr) env' (.error ⟨name.line, .undefined name.lexeme⟩)
  | assignFails {env env' : Environment} {name : Token} {expr : Node} {failure : Failure}
    (fails : Evaluates env expr env' (.error failure)) :
    Evaluates env (.assign name expr) env' (.error failure)

/-! ## Statements -/

/-- What is run: a statement, statements one after the other, or what is left of a
loop. -/
inductive Task where
  | one (statement : Node)
  | all (statements : List Node)
  | loop (condition body : Node)

/-- `Executes task env lines env' outcome`: in the environment `env` the task
prints the lines, has the outcome, and leaves the environment `env'`. -/
inductive Executes : Task → Environment → List String → Environment → Outcome Unit → Prop where
  | expression {env env' : Environment} {expr : Node} {value : Value}
    (evaluates : Evaluates env expr env' (.ok value)) :
    Executes (.one (.exprStmt expr)) env [] env' (.ok ())
  | expressionFails {env env' : Environment} {expr : Node} {failure : Failure}
    (fails : Evaluates env expr env' (.error failure)) :
    Executes (.one (.exprStmt expr)) env [] env' (.error failure)
  | print {env env' : Environment} {expr : Node} {value : Value}
    (evaluates : Evaluates env expr env' (.ok value)) :
    Executes (.one (.printStmt expr)) env [value.display] env' (.ok ())
  | printFails {env env' : Environment} {expr : Node} {failure : Failure}
    (fails : Evaluates env expr env' (.error failure)) :
    Executes (.one (.printStmt expr)) env [] env' (.error failure)
  | var {env : Environment} {name : Token} :
    Executes (.one (.varStmt name .absent)) env [] (declare name.lexeme .nil env) (.ok ())
  | varInit {env env' : Environment} {name : Token} {initializer : Node} {value : Value}
    (evaluates : Evaluates env initializer env' (.ok value)) :
    Executes (.one (.varStmt name initializer)) env [] (declare name.lexeme value env') (.ok ())
  | varFails {env env' : Environment} {name : Token} {initializer : Node} {failure : Failure}
    (fails : Evaluates env initializer env' (.error failure)) :
    Executes (.one (.varStmt name initializer)) env [] env' (.error failure)
  | block {env env' : Environment} {body : List Node} {frame : Frame} {lines : List String}
    {outcome : Outcome Unit} (executes : Executes (.all body) (∅ :: env) lines (frame :: env')
      outcome) :
    Executes (.one (.blockStmt body)) env lines env' outcome
  | ifTrue {env env' env'' : Environment} {condition thenBranch elseBranch : Node} {value : Value}
    {lines : List String} {outcome : Outcome Unit}
    (evaluates : Evaluates env condition env' (.ok value)) (passes : value.truthy = true)
    (executes : Executes (.one thenBranch) env' lines env'' outcome) :
    Executes (.one (.ifStmt condition thenBranch elseBranch)) env lines env'' outcome
  | ifFalse {env env' env'' : Environment} {condition thenBranch elseBranch : Node}
    {value : Value} {lines : List String} {outcome : Outcome Unit}
    (evaluates : Evaluates env condition env' (.ok value)) (misses : value.truthy = false)
    (present : elseBranch ≠ .absent)
    (executes : Executes (.one elseBranch) env' lines env'' outcome) :
    Executes (.one (.ifStmt condition thenBranch elseBranch)) env lines env'' outcome
  | ifNone {env env' : Environment} {condition thenBranch : Node} {value : Value}
    (evaluates : Evaluates env condition env' (.ok value)) (misses : value.truthy = false) :
    Executes (.one (.ifStmt condition thenBranch .absent)) env [] env' (.ok ())
  | ifFails {env env' : Environment} {condition thenBranch elseBranch : Node} {failure : Failure}
    (fails : Evaluates env condition env' (.error failure)) :
    Executes (.one (.ifStmt condition thenBranch elseBranch)) env [] env' (.error failure)
  | whileDo {env env' : Environment} {condition body : Node} {lines : List String}
    {outcome : Outcome Unit} (executes : Executes (.loop condition body) env lines env' outcome) :
    Executes (.one (.whileStmt condition body)) env lines env' outcome
  | loopEnds {env env' : Environment} {condition body : Node} {value : Value}
    (evaluates : Evaluates env condition env' (.ok value)) (misses : value.truthy = false) :
    Executes (.loop condition body) env [] env' (.ok ())
  | loopFails {env env' : Environment} {condition body : Node} {failure : Failure}
    (fails : Evaluates env condition env' (.error failure)) :
    Executes (.loop condition body) env [] env' (.error failure)
  | loopBodyFails {env env' env'' : Environment} {condition body : Node} {value : Value}
    {lines : List String} {failure : Failure}
    (evaluates : Evaluates env condition env' (.ok value)) (passes : value.truthy = true)
    (fails : Executes (.one body) env' lines env'' (.error failure)) :
    Executes (.loop condition body) env lines env'' (.error failure)
  | loopAgain {env env' env'' env''' : Environment} {condition body : Node} {value : Value}
    {lines lines' : List String} {outcome : Outcome Unit}
    (evaluates : Evaluates env condition env' (.ok value)) (passes : value.truthy = true)
    (executes : Executes (.one body) env' lines env'' (.ok ()))
    (again : Executes (.loop condition body) env'' lines' env''' outcome) :
    Executes (.loop condition body) env (lines ++ lines') env''' outcome
  | done {env : Environment} : Executes (.all []) env [] env (.ok ())
  | firstFails {env env' : Environment} {statement : Node} {statements : List Node}
    {lines : List String} {failure : Failure}
    (fails : Executes (.one statement) env lines env' (.error failure)) :
    Executes (.all (statement :: statements)) env lines env' (.error failure)
  | next {env env' env'' : Environment} {statement : Node} {statements : List Node}
    {lines lines' : List String} {outcome : Outcome Unit}
    (first : Executes (.one statement) env lines env' (.ok ()))
    (others : Executes (.all statements) env' lines' env'' outcome) :
    Executes (.all (statement :: statements)) env (lines ++ lines') env'' outcome

end TreeWalker.Reference
