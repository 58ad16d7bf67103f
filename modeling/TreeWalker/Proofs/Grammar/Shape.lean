import TreeWalker.Proofs.Sequencing
import TreeWalker.Grammar.Program

/-!
# The shape of what is parsed

Whatever the tokens are, and whatever is reported about them, a parser returns
only well-formed trees: expressions and statements stand where they belong, and
nothing is missing but an initializer or an else branch.  The rules of the
grammar are followed for what they return alone, since the tokens do not matter.
-/

namespace TreeWalker

namespace Node

/-- A tree that is an expression throughout. -/
def FormsExpression : Node → Prop
  | literal _ | reference _ => True
  | grouping inner => inner.FormsExpression
  | unary _ operand => operand.FormsExpression
  | binary left _ right | logical left _ right => left.FormsExpression ∧ right.FormsExpression
  | assign _ value => value.FormsExpression
  | _ => False

mutual

/-- A tree that is a statement or declaration throughout. -/
def FormsStatement : Node → Prop
  | exprStmt expr | printStmt expr => expr.FormsExpression
  | varStmt _ initializer => initializer = absent ∨ initializer.FormsExpression
  | blockStmt body => FormStatements body
  | ifStmt condition thenBranch elseBranch =>
    condition.FormsExpression ∧ thenBranch.FormsStatement ∧
      (elseBranch = absent ∨ elseBranch.FormsStatement)
  | whileStmt condition body => condition.FormsExpression ∧ body.FormsStatement
  | _ => False

/-- Trees that are statements or declarations. -/
def FormStatements : List Node → Prop
  | [] => True
  | node :: nodes => node.FormsStatement ∧ FormStatements nodes

end

theorem formStatements_iff {nodes : List Node} :
    FormStatements nodes ↔ ∀ node ∈ nodes, node.FormsStatement := by
  induction nodes with
  | nil => simp [FormStatements]
  | cons node nodes inductionHypothesis => simp [FormStatements, inductionHypothesis]

end Node

namespace Grammar

variable {α β : Type}

/-- What a parser returns, if it returns anything, is of a certain shape. -/
def Yields (shape : α → Prop) (parser : Parser α) : Prop :=
  ∀ cursor a after, parser cursor = .ok a after → shape a

/-- Nothing, or a result of a certain shape. -/
def IfAny (shape : α → Prop) (found : Option α) : Prop :=
  ∀ a ∈ found, shape a

/-- The trees of the levels are operations. -/
theorem Level.node_cases {level : Level} (member : level ∈ Level.all) :
    level.node = .logical ∨ level.node = .binary := by
  simp only [Level.all, List.mem_cons, List.not_mem_nil, or_false] at member
  rcases member with rfl | rfl | rfl | rfl | rfl | rfl <;> simp

/-- Shapes of statements and of declarations that the rules of the grammar give to what
they return, whatever the well-formed expressions in it are. -/
structure Formation (statement declaration : Node → Prop) : Prop where
  exprStmt {expr : Node} (shaped : expr.FormsExpression) : statement (.exprStmt expr)
  printStmt {expr : Node} (shaped : expr.FormsExpression) : statement (.printStmt expr)
  ifStmt {condition thenBranch elseBranch : Node} (tested : condition.FormsExpression)
    (chosen : statement thenBranch) (otherwise : elseBranch = .absent ∨ statement elseBranch) :
    statement (.ifStmt condition thenBranch elseBranch)
  whileStmt {condition body : Node} (tested : condition.FormsExpression)
    (repeated : statement body) : statement (.whileStmt condition body)
  blockStmt {body : List Node} (shaped : ∀ node ∈ body, declaration node) :
    statement (.blockStmt body)
  varStmt {name : Token} {initializer : Node}
    (shaped : initializer = .absent ∨ initializer.FormsExpression) :
    declaration (.varStmt name initializer)
  declared {node : Node} (shaped : statement node) : declaration node

/-- Statements and declarations are well formed. -/
theorem formation_formsStatement : Formation Node.FormsStatement Node.FormsStatement where
  exprStmt := id
  printStmt := id
  ifStmt tested chosen otherwise := ⟨tested, chosen, otherwise⟩
  whileStmt tested repeated := ⟨tested, repeated⟩
  blockStmt := Node.formStatements_iff.mpr
  varStmt := id
  declared := id

namespace Yields

variable {shape : α → Prop} {parser : Parser α}

theorem pure {a : α} (shaped : shape a) : Yields shape (Pure.pure a : Parser α) := by
  intro cursor a after run
  cases run
  exact shaped

theorem throw (stop : Stop) : Yields shape (MonadExcept.throw stop : Parser α) :=
  fun _ _ _ run => by cases run

theorem bind {shape' : β → Prop} {next : α → Parser β} (first : Yields shape parser)
    (second : ∀ a, shape a → Yields shape' (next a)) : Yields shape' (parser >>= next) := by
  intro cursor b after run
  obtain ⟨a, middle, firstRun, secondRun⟩ := bind_eq_ok_iff.mp run
  exact second a (first cursor a middle firstRun) middle b after secondRun

/-- What comes of a result that nothing is known about. -/
theorem after {shape' : β → Prop} {next : α → Parser β}
    (second : ∀ a, Yields shape' (next a)) : Yields shape' (parser >>= next) :=
  bind (fun _ _ _ _ => trivial) fun a _ => second a

/-- What comes of a token that may be there. -/
theorem accept {accepts : TokenKind → Bool} {next : Option Token → Parser α}
    (found : ∀ token, Yields shape (next (some token))) (missing : Yields shape (next none)) :
    Yields shape (accept? accepts >>= next) :=
  after fun
    | none => missing
    | some token => found token

theorem reject (fault : Fault) : Yields shape (reject fault : Parser α) :=
  after fun _ => throw .rejected

/-! ## Expressions -/

section Expressions

variable {level : Level} {operand nested : Parser Node}

theorem chain (joins : ∀ left operator right, Node.FormsExpression left →
      Node.FormsExpression right → (level.node left operator right).FormsExpression)
    (operands : Yields Node.FormsExpression operand) (fuel : Nat) {left : Node}
    (begins : left.FormsExpression) (operator : Token) :
    Yields Node.FormsExpression (chain level operand fuel left operator) := by
  induction fuel generalizing left operator with
  | zero => exact throw .exhausted
  | succ fuel inductionHypothesis =>
      refine operands.bind fun right shaped => ?_
      have grown := joins left operator right begins shaped
      exact accept (inductionHypothesis grown) (pure grown)

theorem operations (operands : Yields Node.FormsExpression operand) {levels : List Level}
    (suffix : levels ⊆ Level.all) : Yields Node.FormsExpression (operations operand levels) := by
  induction levels with
  | nil => exact operands
  | cons level tighter inductionHypothesis =>
      rcases List.cons_subset.mp suffix with ⟨member, others⟩
      have joins : ∀ left operator right, Node.FormsExpression left →
          Node.FormsExpression right → (level.node left operator right).FormsExpression := by
        intro left operator right leftShaped rightShaped
        rcases Level.node_cases member with same | same <;>
          simpa only [same, Node.FormsExpression] using ⟨leftShaped, rightShaped⟩
      have inner := inductionHypothesis others
      refine inner.bind fun left shaped => accept (fun operator => after fun cursor => ?_)
        (pure shaped)
      exact chain joins inner _ shaped operator

theorem atom (inner : Yields Node.FormsExpression nested) :
    Yields Node.FormsExpression (atom nested) := by
  refine after fun token => ?_
  split
  · exact after fun _ => pure trivial
  · split
    · exact after fun _ => pure trivial
    · exact after fun _ => inner.bind fun node shaped => after fun _ => pure shaped
    · exact reject .expression

theorem assignTo {target value : Node} (targetShaped : target.FormsExpression)
    (valueShaped : value.FormsExpression) (position : Nat) (equal : Token) :
    Yields Node.FormsExpression (assignTo target position equal value) := by
  cases target
  case reference name => exact pure valueShaped
  all_goals exact after fun _ => pure targetShaped

theorem expressionOf (operands : Yields Node.FormsExpression operand)
    (inner : Yields Node.FormsExpression nested) :
    Yields Node.FormsExpression (expressionOf operand nested) := by
  refine (operations operands (List.Subset.refl _)).bind fun target shaped => after fun cursor => ?_
  exact accept (fun equal => inner.bind fun value valueShaped =>
    assignTo shaped valueShaped cursor.position equal) (pure shaped)

theorem operandOf (operands : Yields Node.FormsExpression operand)
    (inner : Yields Node.FormsExpression nested) :
    Yields Node.FormsExpression (operandOf operand nested) :=
  accept (fun _ => operands.bind fun _ shaped => pure shaped) (atom inner)

end Expressions

theorem expression_and_operand (levels : Nat) :
    Yields Node.FormsExpression (expression levels) ∧
      Yields Node.FormsExpression (operand levels) := by
  induction levels with
  | zero => exact ⟨throw .overNested, throw .overNested⟩
  | succ levels inductionHypothesis =>
      rcases inductionHypothesis with ⟨expressions, operands⟩
      exact ⟨expressionOf operands expressions, operandOf operands expressions⟩

theorem expression (levels : Nat) : Yields Node.FormsExpression (expression levels) :=
  (expression_and_operand levels).1

/-! ## Statements -/

section Statements

variable {formed declared : Node → Prop} {expr nested : Parser Node}

theorem condition (exprs : Yields Node.FormsExpression expr) (guarded : Guarded) :
    Yields Node.FormsExpression (condition guarded expr) :=
  after fun _ => exprs.bind fun _ shaped => after fun _ => pure shaped

/-- A sentence that is made of an expression. -/
theorem sentence {formed : Node → Prop} (exprs : Yields Node.FormsExpression expr)
    (kind : Sentence) {make : Node → Node}
    (makes : ∀ expr, expr.FormsExpression → formed (make expr)) :
    Yields formed (expr >>= fun value => sentenceEnd kind >>= fun _ =>
      Pure.pure (make value)) :=
  exprs.bind fun value shaped => after fun _ => pure (makes value shaped)

theorem recovering (parses : Yields shape parser) (start : Nat) :
    Yields (IfAny shape) (recovering start parser) := by
  intro cursor found after run
  unfold Grammar.recovering at run
  split at run
  · next firstRun =>
      cases run
      rintro _ ⟨⟩
      exact parses cursor _ _ firstRun
  · refine Yields.after (fun _ => pure ?_) _ found after run
    exact fun a member => absurd member (Option.not_mem_none a)
  · cases run

theorem collect {item : Parser (Option α)} (items : Yields (IfAny shape) item)
    (ends : TokenKind → Bool) (fuel : Nat) {collected : List α}
    (begun : ∀ a ∈ collected, shape a) :
    Yields (fun found => ∀ a ∈ found, shape a) (collect ends item fuel collected) := by
  induction fuel generalizing collected with
  | zero =>
      refine after fun token => ?_
      split
      · exact pure fun a member => begun a (List.mem_reverse.mp member)
      · exact throw .exhausted
  | succ fuel inductionHypothesis =>
      refine after fun token => ?_
      split
      · exact pure fun a member => begun a (List.mem_reverse.mp member)
      · refine items.bind fun found shaped => ?_
        cases found with
        | none => exact inductionHypothesis begun
        | some first =>
            refine inductionHypothesis fun a member => ?_
            rcases List.mem_cons.mp member with rfl | earlier
            · exact shaped a rfl
            · exact begun a earlier

theorem many {item : Parser (Option α)} (items : Yields (IfAny shape) item)
    (ends : TokenKind → Bool) :
    Yields (fun found => ∀ a ∈ found, shape a) (many ends item) :=
  after fun _ => collect items ends _ fun _ member => absurd member List.not_mem_nil

variable (formation : Formation formed declared)

include formation

theorem ifRest (exprs : Yields Node.FormsExpression expr) (statements : Yields formed nested) :
    Yields formed (ifRest expr nested) := by
  refine (condition exprs .branch).bind fun test testShaped => ?_
  refine statements.bind fun thenBranch thenShaped => accept (fun _ => ?_) ?_
  · exact statements.bind fun elseBranch elseShaped =>
      pure (formation.ifStmt testShaped thenShaped (Or.inr elseShaped))
  · exact pure (formation.ifStmt testShaped thenShaped (Or.inl rfl))

theorem whileRest (exprs : Yields Node.FormsExpression expr)
    (statements : Yields formed nested) : Yields formed (whileRest expr nested) :=
  (condition exprs .loop).bind fun _ testShaped => statements.bind fun _ bodyShaped =>
    pure (formation.whileStmt testShaped bodyShaped)

theorem varRest (exprs : Yields Node.FormsExpression expr) : Yields declared (varRest expr) :=
  after fun _ => accept
    (fun _ => sentence exprs .declaration fun _ shaped => formation.varStmt (Or.inr shaped))
    (after fun _ => pure (formation.varStmt (Or.inl rfl)))

theorem declarationOf (exprs : Yields Node.FormsExpression expr)
    (statements : Yields formed nested) :
    Yields (IfAny declared) (declarationOf expr nested) := by
  have declares : Yields declared nested :=
    fun cursor node after run => formation.declared (statements cursor node after run)
  exact after fun cursor =>
    recovering (accept (fun _ => varRest formation exprs) declares) cursor.position

theorem blockRest {item : Parser (Option Node)} (items : Yields (IfAny declared) item) :
    Yields formed (blockRest item) :=
  after fun _ => (many items endsBlock).bind fun _ shaped => after fun _ => after fun _ =>
    pure (formation.blockStmt shaped)

theorem statementOf (exprs : Yields Node.FormsExpression expr)
    (statements : Yields formed nested) : Yields formed (statementOf expr nested) := by
  refine accept (fun lead => ?_) (sentence exprs .expression fun _ => formation.exprStmt)
  dsimp only
  split
  · exact sentence exprs .value fun _ => formation.printStmt
  · exact ifRest formation exprs statements
  · exact whileRest formation exprs statements
  · exact blockRest formation (declarationOf formation exprs statements)

theorem statement (levels : Nat) : Yields formed (statement levels) := by
  induction levels with
  | zero => exact throw .overNested
  | succ levels inductionHypothesis =>
      exact statementOf formation (expression levels) inductionHypothesis

theorem declaration (levels : Nat) : Yields (IfAny declared) (declaration levels) :=
  declarationOf formation (expression levels) (Yields.statement formation levels)

/-! ## Programs -/

omit formation in
theorem abandoning {parser : Parser (Option α)} (parses : Yields (IfAny shape) parser)
    (start : Nat) : Yields (IfAny shape) (abandoning start parser) := by
  intro cursor found after run
  unfold Grammar.abandoning at run
  split at run
  · refine Yields.after (fun _ => pure ?_) _ found after run
    exact fun a member => absurd member (Option.not_mem_none a)
  · exact parses cursor found after run

theorem topDeclaration (levels : Nat) : Yields (IfAny declared) (topDeclaration levels) :=
  after fun cursor => abandoning (Yields.declaration formation levels) cursor.position

/-- The declarations of a program are of the shape that the rules give, even if it has
faults. -/
theorem program (levels : Nat) :
    Yields (fun declarations => ∀ node ∈ declarations, declared node) (program levels) :=
  many (topDeclaration formation levels) endsSource

end Statements

end Yields

end Grammar

end TreeWalker
