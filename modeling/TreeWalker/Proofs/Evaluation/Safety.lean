import TreeWalker.Proofs.Evaluation.Restoration
import TreeWalker.Proofs.Grammar.Grounding

/-!
# Values and faults of a run

The trees of a source are run on proper values only.  An operator of the grammar
takes proper values to a proper value or to a fault that was to be foreseen, and a
variable that is not declared has its name from the source.  So a run of such a
tree leaves proper values in the scopes, however it ends, and nothing else aborts
it than a foreseen fault, nesting that is too deep, a loop out of rounds, or a
scope that is not live.
-/

namespace TreeWalker

variable {limit : Nat}

/-- A value that `+` combines with others. -/
def Value.isAddend (value : Value) : Bool :=
  value.isNumber || value.isString

namespace Evaluation

/-! ## Faults -/

/-- The faults that the trees of a source can come to, when its tokens are the given
ones. -/
inductive Fault.Foreseen (tokens : List Token) : Fault → Prop where
  | operand : Foreseen tokens .operand
  | operands : Foreseen tokens .operands
  | divisionByZero : Foreseen tokens .divisionByZero
  /-- Values of these sorts are never combined. -/
  | addition {left right : Value} (leftProper : left.IsProper) (rightProper : right.IsProper)
    (never : ∀ other another, other.sortName = left.sortName →
      another.sortName = right.sortName → ∃ fault, add other another = .error fault) :
    Foreseen tokens (.addition left.sortName right.sortName)
  /-- The name is an identifier of the source. -/
  | undefined {name : Token} (among : name ∈ tokens) (isName : name.kind = .identifier) :
    Foreseen tokens (.undefined name.lexeme)

/-- What the result of an operation may be. -/
def IsForeseen (tokens : List Token) : Except Fault Value → Prop
  | .ok value => value.IsProper
  | .error fault => fault.Foreseen tokens

/-- The ways in which the trees of a source can be aborted: no node is misplaced. -/
def Abort.Foreseen (tokens : List Token) : Abort → Prop
  | .fault _ problem => problem.Foreseen tokens
  | .misplaced _ => False
  | .scope _ | .overNested | .unfinished => True

/-- The messages by which the run of a source can be told to have stopped. -/
inductive RuntimeMessage (tokens : List Token) : String → Prop where
  | fault {fault : Fault} (foreseen : fault.Foreseen tokens) : RuntimeMessage tokens fault.message
  | nesting : RuntimeMessage tokens "Nesting too deep."

/-- A problem of a run, if there is one, has one of these messages. -/
def KnownProblem (tokens : List Token) (problem : Option Diagnostic) : Prop :=
  ∀ diagnostic, problem = some diagnostic → RuntimeMessage tokens diagnostic.message

variable {tokens : List Token}

theorem KnownProblem.none : KnownProblem tokens none := by
  rintro _ ⟨⟩

theorem KnownProblem.some {diagnostic : Diagnostic}
    (told : RuntimeMessage tokens diagnostic.message) : KnownProblem tokens (some diagnostic) := by
  rintro _ ⟨⟩
  exact told

/-- The sort of a value tells whether it is combined with others. -/
theorem isAddend_of_sortName {value other : Value} (same : value.sortName = other.sortName) :
    value.isAddend = other.isAddend := by
  cases value <;> cases other <;> first | rfl | simp [Value.sortName] at same

theorem add_eq_error {left right : Value} (refused : (left.isAddend && right.isAddend) = false) :
    add left right = .error (.addition left.sortName right.sortName) := by
  cases left <;> cases right <;> first | rfl | simp [Value.isAddend, Value.isNumber,
    Value.isString] at refused

theorem isForeseen_add {left right : Value} (leftProper : left.IsProper)
    (rightProper : right.IsProper) : IsForeseen tokens (add left right) := by
  cases combined : left.isAddend && right.isAddend with
  | true =>
      obtain ⟨leftAddend, rightAddend⟩ := Bool.and_eq_true_iff.mp combined
      cases left <;> cases right <;> trivial
  | false =>
      rw [add_eq_error combined]
      refine .addition leftProper rightProper fun other another sameLeft sameRight => ?_
      have refused : (other.isAddend && another.isAddend) = false := by
        rw [isAddend_of_sortName sameLeft, isAddend_of_sortName sameRight, combined]
      exact ⟨_, add_eq_error refused⟩

theorem isForeseen_applyUnary {operator : Token}
    (isOperator : operator.kind = .symbol .bang ∨ operator.kind = .symbol .minus)
    (operand : Value) : IsForeseen tokens (applyUnary operator operand) := by
  unfold applyUnary
  rcases isOperator with same | same <;> rw [same]
  · trivial
  · cases operand with
    | number x => trivial
    | _ => exact .operand

/-- A numeric operation on two numbers. -/
theorem isForeseen_numeric {symbol : Symbol} {operation : Float → Float → Except Fault Value}
    (denotes : numeric? symbol = some operation) (x y : Float) :
    IsForeseen tokens (operation x y) := by
  unfold numeric? at denotes
  split at denotes <;> cases denotes
  case h_3 =>
    dsimp only
    split
    · exact .divisionByZero
    · trivial
  all_goals trivial

theorem isForeseen_applyNumeric {symbol : Symbol}
    {operation : Float → Float → Except Fault Value} (denotes : numeric? symbol = some operation)
    (left right : Value) :
    IsForeseen tokens (match left, right with
      | .number x, .number y => operation x y
      | _, _ => .error .operands) := by
  split
  · exact isForeseen_numeric denotes _ _
  · exact .operands

theorem isForeseen_applySymbol {symbol : Symbol} {left right : Value}
    {result : Except Fault Value} (applies : applySymbol? symbol left right = some result)
    (leftProper : left.IsProper) (rightProper : right.IsProper) : IsForeseen tokens result := by
  unfold applySymbol? at applies
  split at applies
  · cases applies
    exact isForeseen_add leftProper rightProper
  · cases applies
    trivial
  · cases applies
    trivial
  · obtain ⟨operation, denotes, rfl⟩ := Option.map_eq_some_iff.mp applies
    exact isForeseen_applyNumeric denotes left right

/-- A binary operator of the grammar denotes an operation. -/
theorem exists_applySymbol {kind : TokenKind} {strength : Nat}
    (isOperator : Node.binaryStrength? kind = some strength) (left right : Value) :
    ∃ symbol result, kind = .symbol symbol ∧ applySymbol? symbol left right = some result := by
  unfold Node.binaryStrength? at isOperator
  split at isOperator
  all_goals first
    | exact ⟨_, _, rfl, rfl⟩
    | cases isOperator

theorem isForeseen_applyBinary {operator : Token} {strength : Nat}
    (isOperator : Node.binaryStrength? operator.kind = some strength) {left right : Value}
    (leftProper : left.IsProper) (rightProper : right.IsProper) :
    IsForeseen tokens (applyBinary operator left right) := by
  obtain ⟨symbol, result, isSymbol, applies⟩ := exists_applySymbol isOperator left right
  have denotes : applyBinary operator left right = result := by
    simp only [applyBinary, isSymbol, applies, Option.getD_some]
  rw [denotes]
  exact isForeseen_applySymbol applies leftProper rightProper

/-! ## Computations -/

/-- All scopes of a machine bind proper values only. -/
def Machine.IsProper (machine : Machine) : Prop :=
  machine.arena.IsProper

theorem Machine.IsProper.note {machine : Machine} (proper : machine.IsProper)
    (lines : List String) : (machine.note lines).IsProper := by
  rwa [Machine.IsProper, Machine.note_arena]

variable {α β : Type}

/-- A run that has ended as it may: with a result of some kind or by a foreseen abort,
and with proper values in the scopes. -/
inductive EndsForeseen (tokens : List Token) (good : α → Prop) :
    EStateM.Result Abort Machine α → Prop where
  | value {a : α} {after : Machine} (proper : after.IsProper) (isGood : good a) :
    EndsForeseen tokens good (.ok a after)
  | abort {abort : Abort} {after : Machine} (proper : after.IsProper)
    (foreseen : abort.Foreseen tokens) : EndsForeseen tokens good (.error abort after)

/-- A computation that ends as it may on every machine with proper values. -/
def Guarded (tokens : List Token) (good : α → Prop) (run : Run α) : Prop :=
  ∀ machine, machine.IsProper → EndsForeseen tokens good (run machine)

/-- Any result will do. -/
def Any (_ : α) : Prop :=
  True

namespace Guarded

variable {good : α → Prop} {run : Run α}

theorem pure {a : α} (isGood : good a) : Guarded tokens good (Pure.pure a : Run α) :=
  fun _ proper => .value proper isGood

theorem throw {abort : Abort} (foreseen : abort.Foreseen tokens) :
    Guarded tokens good (MonadExcept.throw abort : Run α) :=
  fun _ proper => .abort proper foreseen

theorem bind {good' : β → Prop} {next : α → Run β} (first : Guarded tokens good run)
    (second : ∀ a, good a → Guarded tokens good' (next a)) :
    Guarded tokens good' (run >>= next) := by
  intro machine proper
  rw [bind_apply]
  have ends := first machine proper
  generalize run machine = result at ends
  cases ends with
  | value proper isGood => exact second _ isGood _ proper
  | abort proper foreseen => exact .abort proper foreseen

theorem get : Guarded tokens Machine.IsProper (MonadState.get : Run Machine) :=
  fun _ proper => .value proper proper

theorem set {machine : Machine} (proper : machine.IsProper) :
    Guarded tokens Any (MonadStateOf.set machine : Run PUnit) :=
  fun _ _ => .value proper trivial

theorem note (lines : List String) : Guarded tokens Any (modify (·.note lines) : Run PUnit) :=
  fun _ proper => .value (proper.note lines) trivial

theorem trace (line : String) : Guarded tokens Any (trace line) :=
  note [line]

theorem printLine (line : String) : Guarded tokens Any (printLine line) :=
  fun _ proper => .value proper trivial

theorem atToken (token : Token) {result : Except Fault Value}
    (foreseen : IsForeseen tokens result) :
    Guarded tokens Value.IsProper (atToken token result) := by
  cases result with
  | ok value => exact pure foreseen
  | error fault => exact throw foreseen

theorem onScopes (result : Except Scope.Fault α) :
    Guarded tokens (fun a => result = .ok a) (onScopes result) := by
  cases result with
  | ok a => exact pure rfl
  | error fault => exact throw trivial

/-- What comes of a name that is not declared. -/
theorem undeclared {name : Token} (among : name ∈ tokens ∧ name.kind = .identifier) :
    Guarded tokens good (Evaluation.atToken name (.error (.undefined name.lexeme)) : Run α) := by
  have foreseen : Abort.Foreseen tokens (.fault name.line (.undefined name.lexeme)) :=
    .undefined among.1 among.2
  exact throw foreseen

/-! ## Variables and scopes -/

theorem readVariable {name : Token} (among : name ∈ tokens ∧ name.kind = .identifier) :
    Guarded tokens Value.IsProper (readVariable name) := by
  refine get.bind fun machine proper => (onScopes _).bind fun found looksUp => ?_
  cases found with
  | some value => exact pure (proper.lookup looksUp)
  | none => exact undeclared among

theorem writeVariable {name : Token} (among : name ∈ tokens ∧ name.kind = .identifier)
    {value : Value} (isProper : value.IsProper) :
    Guarded tokens Any (writeVariable name value) := by
  refine get.bind fun machine proper => (onScopes _).bind fun found updates => ?_
  cases found with
  | some arena => exact set (proper.update isProper updates)
  | none => exact undeclared among

theorem declareVariable (name : Token) {value : Value} (isProper : value.IsProper) :
    Guarded tokens Any (declareVariable name value) :=
  get.bind fun _ proper => (onScopes _).bind fun _ declares =>
    set (proper.declare isProper declares)

theorem enterScope : Guarded tokens Any enterScope := by
  refine get.bind fun machine proper => (onScopes _).bind fun nested nests => ?_
  refine (set (proper.nest nests)).bind fun _ _ => ?_
  split
  · exact (onScopes _).bind fun depth _ => trace _
  · exact pure trivial

theorem leaveScope (outer : Scope.Handle) : Guarded tokens Any (leaveScope outer) := by
  refine get.bind fun machine proper => ?_
  have keeps : Machine.IsProper { machine with current := outer } := proper
  refine (set keeps).bind fun _ _ => (onScopes _).bind fun discarded discards => ?_
  exact (set (proper.discard discards)).bind fun _ _ => trace _

theorem andFinally {body closing : Run Unit} (inside : Guarded tokens Any body)
    (after : Guarded tokens Any closing) : Guarded tokens Any (andFinally body closing) := by
  intro machine proper
  have ends := inside machine proper
  unfold Evaluation.andFinally
  generalize body machine = result at ends
  cases ends with
  | value proper _ => exact after _ proper
  | @abort abort left proper foreseen =>
      have closes := after left proper
      dsimp only
      generalize closing left = closed at closes
      cases closes with
      | value proper _ => exact .abort proper foreseen
      | abort proper fails => exact .abort proper fails

theorem inOwnScope {body : Run Unit} (inside : Guarded tokens Any body) :
    Guarded tokens Any (inOwnScope body) :=
  get.bind fun machine _ => enterScope.bind fun _ _ =>
    andFinally inside (leaveScope machine.current)

/-! ## Trees -/

theorem whileTruthy {test : Run Value} {body : Run Unit}
    (tests : Guarded tokens Value.IsProper test) (runs : Guarded tokens Any body) (rounds : Nat) :
    Guarded tokens Any (whileTruthy test body rounds) := by
  induction rounds with
  | zero => exact throw trivial
  | succ rounds inductionHypothesis =>
      refine tests.bind fun outcome _ => ?_
      split
      · exact runs.bind fun _ _ => inductionHypothesis
      · exact pure trivial

theorem inOrder {run : Node → Run Unit} {statements : List Node}
    (runs : ∀ statement ∈ statements, Guarded tokens Any (run statement)) :
    Guarded tokens Any (inOrder run statements) := by
  induction statements with
  | nil => exact pure trivial
  | cons statement statements inductionHypothesis =>
      exact (runs statement List.mem_cons_self).bind fun _ _ => inductionHypothesis
        fun other member => runs other (List.mem_cons_of_mem _ member)

/-- An expression of a source comes to a proper value. -/
theorem evaluate {expr : Node} (isExpr : expr.IsExpressionOf tokens) (levels : Nat) :
    Guarded tokens Value.IsProper (evaluate levels expr) := by
  induction levels generalizing expr with
  | zero => exact throw trivial
  | succ levels inductionHypothesis =>
      cases expr with
      | literal value => exact pure isExpr.isProper
      | grouping inner => exact inductionHypothesis isExpr.grouped
      | unary operator operand =>
          exact (inductionHypothesis isExpr.operated).bind fun value _ =>
            atToken operator (isForeseen_applyUnary isExpr.canonical.1 value)
      | binary left operator right =>
          obtain ⟨isLeft, isRight⟩ := isExpr.combined
          obtain ⟨_, isOperator, _⟩ := isExpr.canonical.1
          exact (inductionHypothesis isLeft).bind fun _ leftProper =>
            (inductionHypothesis isRight).bind fun _ rightProper =>
              atToken operator (isForeseen_applyBinary isOperator leftProper rightProper)
      | logical left operator right =>
          obtain ⟨isLeft, isRight⟩ := isExpr.connected
          refine (inductionHypothesis isLeft).bind fun value isProper => ?_
          split
          · exact pure isProper
          · exact inductionHypothesis isRight
      | reference name => exact readVariable isExpr.referred
      | assign name value =>
          exact (inductionHypothesis isExpr.assigned).bind fun _ isProper =>
            (writeVariable isExpr.target isProper).bind fun _ _ => pure isProper
      | _ => exact isExpr.canonical.elim

theorem initialValue {name : Token} {initializer : Node}
    (isVariable : (Node.varStmt name initializer).IsStatementOf tokens) (levels : Nat) :
    Guarded tokens Value.IsProper (initialValue levels initializer) := by
  by_cases present : initializer = .absent
  · subst present
    exact pure trivial
  · rw [initialValue_present present]
    exact evaluate (isVariable.initialized present) levels

/-- A statement of a source leaves proper values. -/
theorem perform {statement : Node} (isStatement : statement.IsStatementOf tokens)
    (rounds levels : Nat) : Guarded tokens Any (perform rounds levels statement) := by
  induction levels generalizing statement with
  | zero => exact throw trivial
  | succ levels inductionHypothesis =>
      cases statement with
      | exprStmt expr =>
          exact (trace _).bind fun _ _ => (evaluate isStatement.evaluated levels).bind
            fun _ _ => pure trivial
      | printStmt expr =>
          exact (trace _).bind fun _ _ => (evaluate isStatement.printed levels).bind
            fun value _ => printLine value.display
      | varStmt name initializer =>
          exact (trace _).bind fun _ _ => (initialValue isStatement levels).bind
            fun _ isProper => declareVariable name isProper
      | blockStmt body =>
          exact (trace _).bind fun _ _ => inOwnScope (inOrder fun inner member =>
            inductionHypothesis (isStatement.inBlock inner member))
      | ifStmt condition thenBranch elseBranch =>
          rw [perform_ifStmt]
          refine (trace _).bind fun _ _ => (evaluate isStatement.tested levels).bind
            fun outcome _ => ?_
          split
          · exact inductionHypothesis isStatement.ifTrue
          · by_cases present : elseBranch = .absent
            · subst present
              exact pure trivial
            · rw [performElse_present present]
              exact inductionHypothesis (isStatement.ifFalse present)
      | whileStmt condition body =>
          obtain ⟨isCondition, isBody⟩ := isStatement.looped
          exact (trace _).bind fun _ _ =>
            whileTruthy (evaluate isCondition levels) (inductionHypothesis isBody) rounds
      | _ => exact (isStatement.canonical.elim id id).elim

/-! ## Programs -/

theorem stopWith {message : String} (told : RuntimeMessage tokens message) (line : Int)
    (noted : String) : Guarded tokens (KnownProblem tokens) (stopWith line message noted) :=
  (trace _).bind fun _ _ => pure (.some told)

/-- A program of a source tells of nothing but what is foreseen. -/
theorem runProgram {statements : List Node}
    (areStatements : ∀ statement ∈ statements, statement.IsStatementOf tokens) (rounds : Nat) :
    Guarded tokens (KnownProblem tokens) (runProgram limit rounds statements) := by
  induction statements with
  | nil => exact pure .none
  | cons statement statements inductionHypothesis =>
      intro machine proper
      have ends := perform (areStatements statement List.mem_cons_self) rounds limit machine
        proper
      rw [runProgram_cons]
      generalize Evaluation.perform rounds limit statement machine = result at ends
      cases ends with
      | @value _ after proper =>
          exact inductionHypothesis (fun other member =>
            areStatements other (List.mem_cons_of_mem _ member)) after proper
      | @abort abort after proper foreseen =>
          cases abort with
          | fault line fault => exact stopWith (.fault foreseen) line _ after proper
          | overNested => exact stopWith .nesting _ _ after proper
          | misplaced node => exact foreseen.elim
          | scope | unfinished => exact throw foreseen after proper

end Guarded

end Evaluation

end TreeWalker
