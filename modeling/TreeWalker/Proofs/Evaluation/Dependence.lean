import TreeWalker.Evaluation.Parts
import TreeWalker.Proofs.Evaluation.Calls

/-!
# A run depends on its calls

The calls of a task are all the runs of trees that it consults.  Suppose that the
trees a tree is made of were run in some other way, which comes to the same
wherever the task calls one of them.  Then the task comes to the same as well, so
no tree is started but by a call.  The same holds of a program and its statements, so
the tasks that are reached in a run are all there are.
-/

namespace TreeWalker

namespace Evaluation

/-! ## Trees and programs in terms of their parts -/

theorem evaluate_succ (levels : Nat) (node : Node) :
    evaluate (levels + 1) node = evaluateBy (evaluate levels) node := by
  cases node <;> rfl

theorem perform_succ (rounds levels : Nat) (node : Node) :
    perform rounds (levels + 1) node =
      performBy rounds (evaluate levels) (perform rounds levels) node := by
  cases node with
  | varStmt name initializer => cases initializer <;> rfl
  | _ => rfl

section Programs

variable {effect : Node → Run Unit} {statement : Node} {machine after : Machine} {abort : Abort}

/-- A program goes on after a statement that ends. -/
theorem runProgramBy_cons_of_ok (runs : effect statement machine = .ok () after)
    (others : List Node) :
    runProgramBy effect (statement :: others) machine = runProgramBy effect others after := by
  simp only [runProgramBy, runs]

/-- A program is stopped by a statement that is aborted. -/
theorem runProgramBy_cons_of_error (runs : effect statement machine = .error abort after)
    (others : List Node) :
    runProgramBy effect (statement :: others) machine = diagnose statement abort after := by
  simp only [runProgramBy, runs]

end Programs

/-! ## Lists and loops -/

section Combinators

variable {rounds : Nat} {machine : Machine}

theorem inOrder_congr {run run' : Node → Run Unit} {statements : List Node}
    (same : ∀ statement begun, Starts run' statements machine statement begun →
      run statement begun = run' statement begun) :
    inOrder run statements machine = inOrder run' statements machine := by
  induction statements generalizing machine with
  | nil => rfl
  | cons statement statements inductionHypothesis =>
      exact bind_apply_congr (same _ _ .first) fun _ _ runs =>
        inductionHypothesis fun other begun starts => same other begun (.later runs starts)

theorem whileTruthy_congr {test test' : Run Value} {body body' : Run Unit}
    (tests : ∀ begun, Begins test' body' rounds machine begun → test begun = test' begun)
    (runs : ∀ begun outcome tested, Begins test' body' rounds machine begun →
      test' begun = .ok outcome tested → outcome.truthy = true → body tested = body' tested) :
    whileTruthy test body rounds machine = whileTruthy test' body' rounds machine := by
  induction rounds generalizing machine with
  | zero => rfl
  | succ rounds inductionHypothesis =>
      refine bind_apply_congr (tests _ .first) fun outcome tested ran => ?_
      cases passes : outcome.truthy with
      | false => rfl
      | true =>
          refine bind_apply_congr (runs _ _ _ .first ran passes) fun _ middle did => ?_
          refine inductionHypothesis (fun begun begins => ?_)
            fun begun outcome tested begins => ?_
          · exact tests begun (.later ran passes did begins)
          · exact runs begun outcome tested (.later ran passes did begins)

theorem inOwnScope_congr {body body' : Run Unit}
    (same : ∀ entered, enterScope machine = .ok () entered → body entered = body' entered) :
    inOwnScope body machine = inOwnScope body' machine := by
  refine bind_apply_congr rfl fun outer after gets => ?_
  cases gets
  refine bind_apply_congr rfl fun _ entered enters => ?_
  rw [andFinally, andFinally, same entered enters]

end Combinators

/-! ## Tasks -/

section Tasks

variable {rounds levels : Nat} {value : Node → Run Value} {effect : Node → Run Unit}
  {node : Node} {machine : Machine}

/-- An expression depends on the expressions that it calls. -/
theorem evaluateBy_of_calls
    (values : ∀ expr begun, Calls rounds (.value (levels + 1) node) machine
      (.value levels expr) begun → value expr begun = evaluate levels expr begun) :
    evaluateBy value node machine = evaluate (levels + 1) node machine := by
  rw [evaluate_succ]
  cases node with
  | grouping inner => exact values _ _ .grouping
  | unary operator operand => exact bind_apply_congr (values _ _ .unary) fun _ _ _ => rfl
  | binary left operator right =>
      exact bind_apply_congr (values _ _ .binaryLeft) fun _ _ runs =>
        bind_apply_congr (values _ _ (.binaryRight runs)) fun _ _ _ => rfl
  | logical left operator right =>
      refine bind_apply_congr (values _ _ .logicalLeft) fun outcome middle runs => ?_
      cases undecided : decides operator outcome with
      | true => rfl
      | false => exact values _ _ (.logicalRight runs undecided)
  | assign name assigned => exact bind_apply_congr (values _ _ .assign) fun _ _ _ => rfl
  | _ => rfl

/-- A statement depends on the expressions and statements that it calls. -/
theorem performBy_of_calls
    (values : ∀ expr begun, Calls rounds (.effect (levels + 1) node) machine
      (.value levels expr) begun → value expr begun = evaluate levels expr begun)
    (effects : ∀ statement begun, Calls rounds (.effect (levels + 1) node) machine
      (.effect levels statement) begun →
        effect statement begun = perform rounds levels statement begun) :
    performBy rounds value effect node machine = perform rounds (levels + 1) node machine := by
  rw [perform_succ]
  refine bind_apply_congr rfl fun _ middle traces => ?_
  have isNoted : noted node machine = middle := by
    cases traces
    rfl
  subst isNoted
  cases node with
  | exprStmt expr => exact bind_apply_congr (values _ _ .exprStmt) fun _ _ _ => rfl
  | printStmt expr => exact bind_apply_congr (values _ _ .printStmt) fun _ _ _ => rfl
  | varStmt name initializer =>
      cases initializer with
      | absent => rfl
      | _ => exact bind_apply_congr (values _ _ (.varStmt Node.noConfusion)) fun _ _ _ => rfl
  | blockStmt body =>
      exact inOwnScope_congr fun entered enters => inOrder_congr fun statement begun starts =>
        effects statement begun (.blockStmt enters starts)
  | ifStmt condition thenBranch elseBranch =>
      refine bind_apply_congr (values _ _ .condition) fun outcome tested tests => ?_
      cases passes : outcome.truthy with
      | true => exact effects _ _ (.thenBranch tests passes)
      | false =>
          cases elseBranch with
          | absent => rfl
          | _ => exact effects _ _ (.elseBranch tests passes Node.noConfusion)
  | whileStmt condition body =>
      exact whileTruthy_congr (fun begun begins => values _ _ (.test begins))
        fun begun outcome tested begins tests passes => effects _ _ (.round begins tests passes)
  | _ => rfl

end Tasks

/-! ## Programs -/

/-- What is known of some tasks settles what a task comes to, in whichever way the trees of
its tree are run.  A task without levels is given up at once. -/
def Task.SettledBy (rounds : Nat) (known : Task → Machine → Prop) : Task → Machine → Prop
  | value 0 _, _ | effect 0 _, _ => True
  | value (levels + 1) expr, machine => ∀ value : Node → Run Value,
    (∀ inner begun, known (.value levels inner) begun →
      value inner begun = evaluate levels inner begun) →
    evaluateBy value expr machine = evaluate (levels + 1) expr machine
  | effect (levels + 1) statement, machine =>
    ∀ (value : Node → Run Value) (effect : Node → Run Unit),
    (∀ inner begun, known (.value levels inner) begun →
      value inner begun = evaluate levels inner begun) →
    (∀ inner begun, known (.effect levels inner) begun →
      effect inner begun = perform rounds levels inner begun) →
    performBy rounds value effect statement machine = perform rounds (levels + 1) statement machine

/-- What is known of some tasks settles what a program comes to, in whichever way its
statements are run. -/
def ProgramSettledBy (limit rounds : Nat) (known : Task → Machine → Prop)
    (statements : List Node) (machine : Machine) : Prop :=
  ∀ effect : Node → Run Unit, (∀ statement begun, known (.effect limit statement) begun →
    effect statement begun = perform rounds limit statement begun) →
  runProgramBy effect statements machine = runProgram limit rounds statements machine

section Programs

variable {limit rounds : Nat} {statements : List Node} {machine : Machine}

/-- Every task that is reached in a run is settled by those that are reached. -/
theorem Reached.settled {task : Task} {begun : Machine}
    (reached : Reached limit rounds statements machine task begun) :
    task.SettledBy rounds (Reached limit rounds statements machine) begun := by
  cases task with
  | value levels expr =>
      cases levels with
      | zero => trivial
      | succ levels =>
          intro value values
          exact evaluateBy_of_calls fun inner start calls => values inner start (reached.call calls)
  | effect levels statement =>
      cases levels with
      | zero => trivial
      | succ levels =>
          intro value effect values effects
          exact performBy_of_calls
            (fun inner start calls => values inner start (reached.call calls))
            fun inner start calls => effects inner start (reached.call calls)

/-- A program depends on the statements that it starts. -/
theorem runProgramBy_of_starts {effect : Node → Run Unit}
    (effects : ∀ statement begun,
      Starts (perform rounds limit) statements machine statement begun →
        effect statement begun = perform rounds limit statement begun) :
    runProgramBy effect statements machine = runProgram limit rounds statements machine := by
  induction statements generalizing machine with
  | nil => rfl
  | cons statement statements inductionHypothesis =>
      have same := effects statement machine .first
      cases runs : perform rounds limit statement machine with
      | ok a after =>
          rw [runProgramBy_cons_of_ok (same.trans runs)]
          simp only [runProgram, runs]
          exact inductionHypothesis fun other begun starts =>
            effects other begun (.later runs starts)
      | error abort after =>
          rw [runProgramBy_cons_of_error (same.trans runs)]
          simp only [runProgram, runs]

/-- A program is settled by the tasks that are reached in its run. -/
theorem programSettledBy_reached :
    ProgramSettledBy limit rounds (Reached limit rounds statements machine) statements machine :=
  fun _ effects => runProgramBy_of_starts fun statement begun starts =>
    effects statement begun (.statement starts)

end Programs

end Evaluation

end TreeWalker
