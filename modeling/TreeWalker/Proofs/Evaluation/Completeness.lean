import TreeWalker.Proofs.Evaluation.Following

/-!
# Derivations are runs

What is derived by the rules is what runs come to.  A run of an expression comes
to it whenever its nesting allows; a run of a statement does so as soon as its
loops have enough rounds, and with fewer rounds it comes to nothing else.
-/

namespace TreeWalker.Evaluation

open Reference (Environment Evaluates Executes Task)

/-! ## Expressions -/

section Expressions

variable {short : Prop} {env env' : Environment} {expr : Node}
  {outcome : Reference.Outcome Value}

theorem ne_absent_of_evaluates (evaluates : Evaluates env expr env' outcome) :
    expr ≠ .absent := by
  rintro rfl
  cases evaluates

/-- An expression with a derivation comes to its outcome. -/
theorem evaluate_of_evaluates (levels : Nat) (evaluates : Evaluates env expr env' outcome) :
    Follows True short (evaluate levels expr) env (Exactly [] env' outcome) := by
  induction levels generalizing env expr env' outcome with
  | zero =>
      rw [evaluate]
      exact .overNested trivial
  | succ levels inductionHypothesis =>
      cases evaluates with
      | literal =>
          rw [evaluate]
          exact .pure ⟨rfl, rfl, rfl⟩
      | grouping evaluates =>
          rw [evaluate]
          exact inductionHypothesis evaluates
      | unary evaluates =>
          rw [evaluate]
          exact (inductionHypothesis evaluates).bind_silent (.atToken _ _)
      | unaryFails fails =>
          rw [evaluate]
          exact (inductionHypothesis fails).bind_error
      | binary leftEvaluates rightEvaluates =>
          rw [evaluate]
          apply (inductionHypothesis leftEvaluates).bind_silent
          exact (inductionHypothesis rightEvaluates).bind_silent (.atToken _ _)
      | binaryLeftFails fails =>
          rw [evaluate]
          exact (inductionHypothesis fails).bind_error
      | binaryRightFails leftEvaluates fails =>
          rw [evaluate]
          apply (inductionHypothesis leftEvaluates).bind_silent
          exact (inductionHypothesis fails).bind_error
      | orLeft isOr evaluates decided =>
          rw [evaluate]
          apply (inductionHypothesis evaluates).bind_silent
          simp only [decides, isOr, decided, if_true]
          exact .pure ⟨rfl, rfl, rfl⟩
      | orRight isOr leftEvaluates undecided rightEvaluates =>
          rw [evaluate]
          apply (inductionHypothesis leftEvaluates).bind_silent
          simp only [decides, isOr, undecided, Bool.false_eq_true, if_false]
          exact inductionHypothesis rightEvaluates
      | andLeft isAnd evaluates decided =>
          rw [evaluate]
          apply (inductionHypothesis evaluates).bind_silent
          simp only [decides, isAnd, decided, Bool.not_false, if_true]
          exact .pure ⟨rfl, rfl, rfl⟩
      | andRight isAnd leftEvaluates undecided rightEvaluates =>
          rw [evaluate]
          apply (inductionHypothesis leftEvaluates).bind_silent
          simp only [decides, isAnd, undecided, Bool.not_true, Bool.false_eq_true, if_false]
          exact inductionHypothesis rightEvaluates
      | logicalFails fails =>
          rw [evaluate]
          exact (inductionHypothesis fails).bind_error
      | reference =>
          rw [evaluate]
          exact .readVariable _
      | assign evaluates written =>
          rw [evaluate]
          apply (inductionHypothesis evaluates).bind_silent
          exact (Follows.writeVariable_some written).bind_silent (.pure ⟨rfl, rfl, rfl⟩)
      | assignUndefined evaluates unbound =>
          rw [evaluate]
          apply (inductionHypothesis evaluates).bind_silent
          exact (Follows.writeVariable_none unbound).bind_error
      | assignFails fails =>
          rw [evaluate]
          exact (inductionHypothesis fails).bind_error

end Expressions

/-! ## Statements -/

/-- The run of a task: with so many rounds for each loop in it, nested so many
levels deep, and, if it is what is left of a loop, with so many rounds left. -/
def runOf (rounds levels left : Nat) : Task → Run Unit
  | .one statement => perform rounds levels statement
  | .all statements => inOrder (perform rounds levels) statements
  | .loop condition body =>
    whileTruthy (evaluate levels condition) (perform rounds levels body) left

/-- A statement follows an effect if it does wherever a level is left. -/
theorem Follows.perform_of_succ {short : Prop} {rounds : Nat} {statement : Node}
    {env : Environment} {effect : Effect Unit}
    (deeper : ∀ levels, Follows True short (perform rounds (levels + 1) statement) env effect)
    (levels : Nat) : Follows True short (perform rounds levels statement) env effect := by
  cases levels with
  | zero =>
      rw [perform]
      exact .overNested trivial
  | succ levels => exact deeper levels

/-- A task comes to its lines and its outcome as soon as there are rounds enough,
and to nothing else before. -/
def Comes (task : Task) (env : Environment) (lines : List String) (env' : Environment)
    (outcome : Reference.Outcome Unit) : Prop :=
  ∃ bound, ∀ rounds levels left,
    Follows True (min rounds left < bound) (runOf rounds levels left task) env
      (Exactly lines env' outcome)

section Statements

variable {env env' : Environment} {lines : List String} {outcome : Reference.Outcome Unit}

/-- A statement without a loop needs no rounds. -/
theorem comes_of_follows {statement : Node}
    (follows : ∀ (short : Prop) rounds levels,
      Follows True short (perform rounds (levels + 1) statement) env (Exactly lines env' outcome)) :
    Comes (.one statement) env lines env' outcome :=
  ⟨0, fun rounds levels _ => .perform_of_succ (follows _ rounds) levels⟩

/-- A task with a derivation comes to what is derived. -/
theorem comes_of_executes {task : Task} (executes : Executes task env lines env' outcome) :
    Comes task env lines env' outcome := by
  induction executes with
  | expression evaluates =>
      refine comes_of_follows fun _ rounds levels => ?_
      rw [perform]
      apply Follows.after_trace
      exact (evaluate_of_evaluates levels evaluates).bind_silent (.pure ⟨rfl, rfl, rfl⟩)
  | expressionFails fails =>
      refine comes_of_follows fun _ rounds levels => ?_
      rw [perform]
      apply Follows.after_trace
      exact (evaluate_of_evaluates levels fails).bind_error
  | print evaluates =>
      refine comes_of_follows fun _ rounds levels => ?_
      rw [perform]
      apply Follows.after_trace
      exact (evaluate_of_evaluates levels evaluates).bind_silent (.printLine _)
  | printFails fails =>
      refine comes_of_follows fun _ rounds levels => ?_
      rw [perform]
      apply Follows.after_trace
      exact (evaluate_of_evaluates levels fails).bind_error
  | var =>
      refine comes_of_follows fun _ rounds levels => ?_
      rw [perform]
      apply Follows.after_trace
      exact .declareVariable _ _
  | varInit evaluates =>
      refine comes_of_follows fun _ rounds levels => ?_
      rw [perform, initialValue_present (ne_absent_of_evaluates evaluates)]
      apply Follows.after_trace
      exact (evaluate_of_evaluates levels evaluates).bind_silent (.declareVariable _ _)
  | varFails fails =>
      refine comes_of_follows fun _ rounds levels => ?_
      rw [perform, initialValue_present (ne_absent_of_evaluates fails)]
      apply Follows.after_trace
      exact (evaluate_of_evaluates levels fails).bind_error
  | block _ bodyHypothesis =>
      rcases bodyHypothesis with ⟨bound, runs⟩
      refine ⟨bound, fun rounds levels left => .perform_of_succ (fun levels => ?_) levels⟩
      rw [perform]
      apply Follows.after_trace
      refine ((runs rounds levels rounds).inOwnScope.imp ?_).weaken id fun short => by omega
      rintro _ _ _ ⟨frame, rfl, same, rfl⟩
      exact ⟨rfl, (List.cons.inj same).2, rfl⟩
  | ifTrue evaluates passes _ branchHypothesis =>
      rcases branchHypothesis with ⟨bound, runs⟩
      refine ⟨bound, fun rounds levels left => .perform_of_succ (fun levels => ?_) levels⟩
      rw [perform_ifStmt]
      apply Follows.after_trace
      apply (evaluate_of_evaluates levels evaluates).bind_silent
      simp only [passes, if_true]
      exact (runs rounds levels rounds).weaken id fun short => by omega
  | ifFalse evaluates misses present _ branchHypothesis =>
      obtain ⟨bound, runs⟩ := branchHypothesis
      refine ⟨bound, fun rounds levels left => .perform_of_succ (fun levels => ?_) levels⟩
      rw [perform_ifStmt, performElse_present present]
      apply Follows.after_trace
      apply (evaluate_of_evaluates levels evaluates).bind_silent
      simp only [misses, Bool.false_eq_true, if_false]
      exact (runs rounds levels rounds).weaken id fun short => by omega
  | ifNone evaluates misses =>
      refine comes_of_follows fun _ rounds levels => ?_
      rw [perform_ifStmt]
      apply Follows.after_trace
      apply (evaluate_of_evaluates levels evaluates).bind_silent
      simp only [misses, Bool.false_eq_true, if_false]
      exact .pure ⟨rfl, rfl, rfl⟩
  | ifFails fails =>
      refine comes_of_follows fun _ rounds levels => ?_
      rw [perform_ifStmt]
      apply Follows.after_trace
      exact (evaluate_of_evaluates levels fails).bind_error
  | whileDo _ loopHypothesis =>
      obtain ⟨bound, runs⟩ := loopHypothesis
      refine ⟨bound, fun rounds levels left => .perform_of_succ (fun levels => ?_) levels⟩
      rw [perform]
      apply Follows.after_trace
      exact (runs rounds levels rounds).weaken id fun short => by omega
  | loopEnds evaluates misses =>
      refine ⟨1, fun rounds levels left => ?_⟩
      cases left with
      | zero => exact .unfinished (by omega)
      | succ left =>
          apply (evaluate_of_evaluates levels evaluates).bind_silent
          simp only [misses, Bool.false_eq_true, if_false]
          exact .pure ⟨rfl, rfl, rfl⟩
  | loopFails fails =>
      refine ⟨1, fun rounds levels left => ?_⟩
      cases left with
      | zero => exact .unfinished (by omega)
      | succ left => exact (evaluate_of_evaluates levels fails).bind_error
  | loopBodyFails evaluates passes _ bodyHypothesis =>
      rcases bodyHypothesis with ⟨bound, runs⟩
      refine ⟨bound + 1, fun rounds levels left => ?_⟩
      cases left with
      | zero => exact .unfinished (by omega)
      | succ left =>
          apply (evaluate_of_evaluates levels evaluates).bind_silent
          simp only [passes, if_true]
          exact ((runs rounds levels rounds).weaken id fun short => by omega).bind_error
  | loopAgain evaluates passes _ _ bodyHypothesis againHypothesis =>
      rcases bodyHypothesis with ⟨bodyBound, runs⟩
      rcases againHypothesis with ⟨againBound, goesOn⟩
      refine ⟨max bodyBound againBound + 1, fun rounds levels left => ?_⟩
      cases left with
      | zero => exact .unfinished (by omega)
      | succ left =>
          apply (evaluate_of_evaluates levels evaluates).bind_silent
          simp only [passes, if_true]
          apply ((runs rounds levels rounds).weaken id fun short => by omega).bind_ok
          exact (goesOn rounds levels left).weaken id fun short => by omega
  | done => exact ⟨0, fun _ _ _ => .pure ⟨rfl, rfl, rfl⟩⟩
  | firstFails _ firstHypothesis =>
      rcases firstHypothesis with ⟨bound, runs⟩
      refine ⟨bound, fun rounds levels left => ?_⟩
      exact ((runs rounds levels rounds).weaken id fun short => by omega).bind_error
  | next _ _ firstHypothesis othersHypothesis =>
      rcases firstHypothesis with ⟨firstBound, runs⟩
      rcases othersHypothesis with ⟨othersBound, goesOn⟩
      refine ⟨max firstBound othersBound, fun rounds levels left => ?_⟩
      apply ((runs rounds levels rounds).weaken id fun short => by omega).bind_ok
      exact (goesOn rounds levels rounds).weaken id fun short => by omega

end Statements

end TreeWalker.Evaluation
