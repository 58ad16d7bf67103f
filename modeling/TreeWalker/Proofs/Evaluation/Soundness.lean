import TreeWalker.Evaluation.Program
import TreeWalker.Proofs.Evaluation.Following
import TreeWalker.Proofs.Grammar.Canonical

/-!
# Runs are derivations

Whatever a run of a canonical tree comes to is derived by the rules, in the
environment that its machine matches.  Nothing is derived from a run that stops
because a loop had too few rounds, or because the tree is deeper than there are
levels; no canonical tree stops in another way.
-/

namespace TreeWalker

variable {limit : Nat}

namespace Node

mutual

/-- Number of levels that a run of a tree needs at most. -/
def depth : Node → Nat
  | absent => 0
  | literal _ | reference _ => 1
  | grouping inner => inner.depth + 1
  | unary _ operand => operand.depth + 1
  | binary left _ right | logical left _ right => max left.depth right.depth + 1
  | assign _ value => value.depth + 1
  | exprStmt expr | printStmt expr => expr.depth + 1
  | varStmt _ initializer => initializer.depth + 1
  | blockStmt body => depthOfAll body + 1
  | ifStmt condition thenBranch elseBranch =>
    max condition.depth (max thenBranch.depth elseBranch.depth) + 1
  | whileStmt condition body => max condition.depth body.depth + 1

/-- Number of levels that runs of several trees need at most. -/
def depthOfAll : List Node → Nat
  | [] => 0
  | node :: nodes => max node.depth (depthOfAll nodes)

end

theorem depth_pos_of_isExpression {node : Node} (canonical : node.IsExpression) :
    0 < node.depth := by
  cases node with
  | literal | grouping | unary | binary | logical | reference | assign => simp [depth]
  | _ => exact canonical.elim

theorem depth_pos_of_isStatement {node : Node} (canonical : node.IsVariable ∨ node.IsStatement) :
    0 < node.depth := by
  cases node with
  | exprStmt | printStmt | varStmt | blockStmt | ifStmt | whileStmt => simp [depth]
  | _ => exact (canonical.elim id id).elim

theorem depth_le_depthOfAll {node : Node} {nodes : List Node} (member : node ∈ nodes) :
    node.depth ≤ depthOfAll nodes := by
  induction nodes with
  | nil => exact absurd member List.not_mem_nil
  | cons first nodes inductionHypothesis =>
      rw [depthOfAll]
      rcases List.mem_cons.mp member with rfl | member
      · exact Nat.le_max_left _ _
      · exact (inductionHypothesis member).trans (Nat.le_max_right _ _)

end Node

namespace Evaluation

open Reference (Environment Evaluates Executes Failure)

/-- What the rules allow an expression. -/
def Evaluated (env : Environment) (expr : Node) : Effect Value :=
  fun lines env' outcome => lines = [] ∧ Evaluates env expr env' outcome

/-! ## Expressions -/

section Expressions

variable {β : Type} {deep short : Prop} {env : Environment}

/-- A sequence that begins with an expression. -/
theorem Follows.bind_evaluated {expr : Node} {run : Run Value} {next : Value → Run β}
    {effect : Effect β} (first : Follows deep short run env (Evaluated env expr))
    (fails : ∀ env' failure, Evaluates env expr env' (.error failure) →
      effect [] env' (.error failure))
    (second : ∀ env' value, Evaluates env expr env' (.ok value) →
      Follows deep short (next value) env' effect) :
    Follows deep short (run >>= next) env effect := by
  refine first.bind ?_ ?_
  · rintro _ env' failure ⟨rfl, evaluates⟩
    exact fails env' failure evaluates
  · rintro _ env' value ⟨rfl, evaluates⟩
    exact second env' value evaluates

theorem isOr_or_isAnd {kind : TokenKind} {left right : Node}
    (binds : Node.Binds (Node.logicalStrength? kind) left right) :
    kind = .keyword .kwOr ∨ kind = .keyword .kwAnd := by
  rcases binds with ⟨_, strength, _⟩
  unfold Node.logicalStrength? at strength
  split at strength
  · exact Or.inl rfl
  · exact Or.inr rfl
  · cases strength

theorem follows_logical {levels : Nat} {left right : Node} {operator : Token}
    (isLogical : operator.kind = .keyword .kwOr ∨ operator.kind = .keyword .kwAnd)
    (leftFollows : Follows deep short (evaluate levels left) env (Evaluated env left))
    (rightFollows : ∀ env, Follows deep short (evaluate levels right) env (Evaluated env right)) :
    Follows deep short (evaluate (levels + 1) (.logical left operator right)) env
      (Evaluated env (.logical left operator right)) := by
  rw [evaluate]
  refine leftFollows.bind_evaluated (fun _ _ fails => ⟨rfl, .logicalFails fails⟩)
    fun env' value leftEvaluates => ?_
  rcases isLogical with isOr | isAnd
  · cases truth : value.truthy with
    | true =>
        simp only [decides, isOr, truth, if_true]
        exact .pure ⟨rfl, .orLeft isOr leftEvaluates truth⟩
    | false =>
        simp only [decides, isOr, truth, Bool.false_eq_true, if_false]
        apply (rightFollows env').imp
        rintro _ _ _ ⟨rfl, rightEvaluates⟩
        exact ⟨rfl, .orRight isOr leftEvaluates truth rightEvaluates⟩
  · cases truth : value.truthy with
    | true =>
        simp only [decides, isAnd, truth, Bool.not_true, Bool.false_eq_true, if_false]
        apply (rightFollows env').imp
        rintro _ _ _ ⟨rfl, rightEvaluates⟩
        exact ⟨rfl, .andRight isAnd leftEvaluates truth rightEvaluates⟩
    | false =>
        simp only [decides, isAnd, truth, Bool.not_false, if_true]
        exact .pure ⟨rfl, .andLeft isAnd leftEvaluates truth⟩

theorem follows_assign {levels : Nat} {name : Token} {value : Node}
    (valueFollows : Follows deep short (evaluate levels value) env (Evaluated env value)) :
    Follows deep short (evaluate (levels + 1) (.assign name value)) env
      (Evaluated env (.assign name value)) := by
  rw [evaluate]
  refine valueFollows.bind_evaluated (fun _ _ fails => ⟨rfl, .assignFails fails⟩)
    fun env' value evaluates => ?_
  cases written : Reference.write? name.lexeme value env' with
  | some env'' =>
      have returns : Follows deep short (pure value) env'' (Exactly [] env'' (.ok value)) :=
        .pure ⟨rfl, rfl, rfl⟩
      apply ((Follows.writeVariable_some written).bind_ok returns).imp
      rintro _ _ _ ⟨rfl, rfl, rfl⟩
      exact ⟨rfl, .assign evaluates written⟩
  | none =>
      apply (Follows.writeVariable_none written).bind_error.imp
      rintro _ _ _ ⟨rfl, rfl, rfl⟩
      exact ⟨rfl, .assignUndefined evaluates written⟩

/-- An expression has the value, or fails, as the rules say. -/
theorem follows_evaluate {levels : Nat} {expr : Node} (canonical : expr.IsExpression)
    (nested : levels < expr.depth → deep) (env : Environment) :
    Follows deep short (evaluate levels expr) env (Evaluated env expr) := by
  induction levels generalizing expr env with
  | zero =>
      rw [evaluate]
      exact .overNested (nested (Node.depth_pos_of_isExpression canonical))
  | succ levels inductionHypothesis =>
      cases expr with
      | literal value =>
          rw [evaluate]
          exact .pure ⟨rfl, .literal⟩
      | grouping inner =>
          have innerCanonical : inner.IsExpression := canonical
          simp only [Node.depth] at nested
          rw [evaluate]
          apply (inductionHypothesis innerCanonical (fun below => nested (by omega)) env).imp
          rintro _ _ _ ⟨rfl, evaluates⟩
          exact ⟨rfl, .grouping evaluates⟩
      | unary operator operand =>
          simp only [Node.depth] at nested
          rw [evaluate]
          have operandFollows := inductionHypothesis canonical.2.2 fun below => nested (by omega)
          refine (operandFollows env).bind_evaluated
            (fun _ _ fails => ⟨rfl, .unaryFails fails⟩) fun _ value evaluates => ?_
          apply (Follows.atToken operator _).imp
          rintro _ _ _ ⟨rfl, rfl, rfl⟩
          exact ⟨rfl, .unary evaluates⟩
      | binary left operator right =>
          simp only [Node.depth] at nested
          have leftFollows := inductionHypothesis canonical.2.1 fun below => nested (by omega)
          have rightFollows := inductionHypothesis canonical.2.2 fun below => nested (by omega)
          rw [evaluate]
          refine (leftFollows env).bind_evaluated
            (fun _ _ fails => ⟨rfl, .binaryLeftFails fails⟩) fun env' _ leftEvaluates => ?_
          refine (rightFollows env').bind_evaluated
            (fun _ _ fails => ⟨rfl, .binaryRightFails leftEvaluates fails⟩)
            fun _ _ rightEvaluates => ?_
          apply (Follows.atToken operator _).imp
          rintro _ _ _ ⟨rfl, rfl, rfl⟩
          exact ⟨rfl, .binary leftEvaluates rightEvaluates⟩
      | logical left operator right =>
          simp only [Node.depth] at nested
          apply follows_logical (isOr_or_isAnd canonical.1)
          · exact inductionHypothesis canonical.2.1 (fun below => nested (by omega)) env
          · exact inductionHypothesis canonical.2.2 fun below => nested (by omega)
      | reference name =>
          rw [evaluate]
          apply (Follows.readVariable name).imp
          rintro _ _ _ ⟨rfl, rfl, rfl⟩
          exact ⟨rfl, .reference⟩
      | assign name value =>
          simp only [Node.depth] at nested
          apply follows_assign
          exact inductionHypothesis canonical.2 (fun below => nested (by omega)) env
      | _ => exact canonical.elim

end Expressions

/-! ## Statements -/

section Statements

variable {deep short : Prop}

/-- Statements that follow the rules one by one follow them together. -/
theorem follows_inOrder {run : Node → Run Unit} {statements : List Node}
    (each : ∀ statement ∈ statements, ∀ env,
      Follows deep short (run statement) env (Executes (.one statement) env)) (env : Environment) :
    Follows deep short (inOrder run statements) env (Executes (.all statements) env) := by
  induction statements generalizing env with
  | nil =>
      rw [inOrder]
      exact .pure .done
  | cons statement statements inductionHypothesis =>
      rw [inOrder]
      refine (each statement (List.mem_cons_self ..) env).bind
        (fun _ _ _ fails => .firstFails fails) fun lines env' _ first => ?_
      refine (inductionHypothesis (fun other member =>
        each other (List.mem_cons_of_mem statement member)) env').imp ?_
      intro _ _ _ others
      exact .next first others

/-- A loop follows the rules if its test and its body do, as far as its rounds
go. -/
theorem follows_whileTruthy {test : Run Value} {body : Run Unit} {condition statement : Node}
    (tests : ∀ env, Follows deep True test env (Evaluated env condition))
    (runs : ∀ env, Follows deep True body env (Executes (.one statement) env)) (rounds : Nat)
    (env : Environment) :
    Follows deep True (whileTruthy test body rounds) env
      (Executes (.loop condition statement) env) := by
  induction rounds generalizing env with
  | zero =>
      rw [whileTruthy]
      exact .unfinished trivial
  | succ rounds inductionHypothesis =>
      rw [whileTruthy]
      refine (tests env).bind_evaluated (fun _ _ fails => .loopFails fails)
        fun env' value evaluates => ?_
      cases truth : value.truthy with
      | false => exact .pure (.loopEnds evaluates truth)
      | true =>
          refine (runs env').bind (fun _ _ _ fails => .loopBodyFails evaluates truth fails)
            fun lines env'' _ executes => ?_
          apply (inductionHypothesis env'').imp
          intro _ _ _ again
          exact .loopAgain evaluates truth executes again

theorem follows_varStmt {rounds levels : Nat} {name : Token} {initializer : Node}
    {env : Environment} (initializerFollows : initializer ≠ .absent →
      Follows deep short (evaluate levels initializer) env (Evaluated env initializer)) :
    Follows deep short (perform rounds (levels + 1) (.varStmt name initializer)) env
      (Executes (.one (.varStmt name initializer)) env) := by
  rw [perform]
  apply Follows.after_trace
  by_cases present : initializer = .absent
  · subst present
    apply (Follows.declareVariable name .nil).imp
    rintro _ _ _ ⟨rfl, rfl, rfl⟩
    exact .var
  · rw [initialValue_present present]
    refine (initializerFollows present).bind_evaluated (fun _ _ fails => .varFails fails)
      fun env' value evaluates => ?_
    apply (Follows.declareVariable name value).imp
    rintro _ _ _ ⟨rfl, rfl, rfl⟩
    exact .varInit evaluates

theorem follows_ifStmt {rounds levels : Nat} {condition thenBranch elseBranch : Node}
    {env : Environment}
    (conditionFollows : Follows deep short (evaluate levels condition) env
      (Evaluated env condition))
    (thenFollows : ∀ env, Follows deep short (perform rounds levels thenBranch) env
      (Executes (.one thenBranch) env))
    (elseFollows : elseBranch ≠ .absent → ∀ env,
      Follows deep short (perform rounds levels elseBranch) env
        (Executes (.one elseBranch) env)) :
    Follows deep short (perform rounds (levels + 1) (.ifStmt condition thenBranch elseBranch)) env
      (Executes (.one (.ifStmt condition thenBranch elseBranch)) env) := by
  rw [perform_ifStmt]
  apply Follows.after_trace
  refine conditionFollows.bind_evaluated (fun _ _ fails => .ifFails fails)
    fun env' value evaluates => ?_
  cases truth : value.truthy with
  | true =>
      apply (thenFollows env').imp
      intro _ _ _ executes
      exact .ifTrue evaluates truth executes
  | false =>
      by_cases present : elseBranch = .absent
      · subst present
        exact .pure (.ifNone evaluates truth)
      · rw [performElse_present present]
        apply (elseFollows present env').imp
        intro _ _ _ executes
        exact .ifFalse evaluates truth present executes

theorem isStatement_parts {condition thenBranch elseBranch : Node}
    (canonical : (Node.ifStmt condition thenBranch elseBranch).IsStatement) :
    condition.IsExpression ∧ thenBranch.IsStatement ∧
      (elseBranch ≠ .absent → elseBranch.IsStatement) := by
  by_cases present : elseBranch = .absent
  · subst present
    exact ⟨canonical.1, canonical.2, fun absent => absurd rfl absent⟩
  · obtain ⟨conditionCanonical, thenCanonical, _, elseCanonical⟩ :=
      (Grammar.isStatement_ifElse present).mp canonical
    exact ⟨conditionCanonical, thenCanonical, fun _ => elseCanonical⟩

theorem isVariable_or_isStatement_of_mem {nodes : List Node} (canonical : Node.AreCanonical nodes) :
    ∀ node ∈ nodes, node.IsVariable ∨ node.IsStatement := by
  induction nodes with
  | nil => exact fun _ member => absurd member List.not_mem_nil
  | cons first nodes inductionHypothesis =>
      intro node member
      rcases List.mem_cons.mp member with rfl | member
      · exact canonical.1
      · exact inductionHypothesis canonical.2 node member

/-- A statement has the effects that the rules say. -/
theorem follows_perform (rounds : Nat) {levels : Nat} {statement : Node}
    (canonical : statement.IsVariable ∨ statement.IsStatement)
    (nested : levels < statement.depth → deep) (env : Environment) :
    Follows deep True (perform rounds levels statement) env (Executes (.one statement) env) := by
  induction levels generalizing statement env with
  | zero =>
      rw [perform]
      exact .overNested (nested (Node.depth_pos_of_isStatement canonical))
  | succ levels inductionHypothesis =>
      rcases canonical with isVariable | isStatement
      · cases statement with
        | varStmt name initializer =>
            simp only [Node.depth] at nested
            apply follows_varStmt
            intro present
            exact follows_evaluate (isVariable.2.resolve_left present)
              (fun below => nested (by omega)) env
        | _ => exact isVariable.elim
      · cases statement with
        | exprStmt expr =>
            have exprCanonical : expr.IsExpression := isStatement
            simp only [Node.depth] at nested
            rw [perform]
            apply Follows.after_trace
            refine (follows_evaluate exprCanonical (fun below => nested (by omega))
              env).bind_evaluated (fun _ _ fails => .expressionFails fails)
              fun env' _ evaluates => ?_
            exact .pure (.expression evaluates)
        | printStmt expr =>
            have exprCanonical : expr.IsExpression := isStatement
            simp only [Node.depth] at nested
            rw [perform]
            apply Follows.after_trace
            refine (follows_evaluate exprCanonical (fun below => nested (by omega))
              env).bind_evaluated (fun _ _ fails => .printFails fails)
              fun env' value evaluates => ?_
            apply (Follows.printLine value.display).imp
            rintro _ _ _ ⟨rfl, rfl, rfl⟩
            exact .print evaluates
        | blockStmt body =>
            have bodyCanonical : Node.AreCanonical body := isStatement
            simp only [Node.depth] at nested
            rw [perform]
            apply Follows.after_trace
            have each := fun statement member => inductionHypothesis
              (isVariable_or_isStatement_of_mem bodyCanonical statement member) fun below =>
                nested (Nat.succ_lt_succ (below.trans_le (Node.depth_le_depthOfAll member)))
            apply (follows_inOrder each (∅ :: env)).inOwnScope.imp
            rintro _ _ _ ⟨frame, executes⟩
            exact .block executes
        | ifStmt condition thenBranch elseBranch =>
            obtain ⟨conditionCanonical, thenCanonical, elseCanonical⟩ :=
              isStatement_parts isStatement
            simp only [Node.depth] at nested
            apply follows_ifStmt
            · exact follows_evaluate conditionCanonical (fun below => nested (by omega)) env
            · exact inductionHypothesis (Or.inr thenCanonical) fun below => nested (by omega)
            · intro present
              exact inductionHypothesis (Or.inr (elseCanonical present))
                fun below => nested (by omega)
        | whileStmt condition body =>
            rcases isStatement with ⟨conditionCanonical, bodyCanonical⟩
            simp only [Node.depth] at nested
            rw [perform]
            apply Follows.after_trace
            have runs := inductionHypothesis (Or.inr bodyCanonical) fun below => nested (by omega)
            refine (follows_whileTruthy (follows_evaluate conditionCanonical fun below =>
              nested (by omega)) runs rounds env).imp ?_
            intro _ _ _ executes
            exact .whileDo executes
        | _ => exact isStatement.elim

/-- The statements of a program have together the effects that the rules say. -/
theorem follows_program (limit rounds : Nat) {statements : List Node}
    (canonical : Node.AreCanonical statements)
    (nested : limit < Node.depthOfAll statements → deep) (env : Environment) :
    Follows deep True (inOrder (perform rounds limit) statements) env
      (Executes (.all statements) env) := by
  refine follows_inOrder (fun statement member => ?_) env
  apply follows_perform rounds (isVariable_or_isStatement_of_mem canonical statement member)
  exact fun below => nested (below.trans_le (Node.depth_le_depthOfAll member))

end Statements

end Evaluation

end TreeWalker
