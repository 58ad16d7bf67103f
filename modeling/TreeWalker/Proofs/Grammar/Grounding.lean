import TreeWalker.Proofs.Evaluation.Soundness
import TreeWalker.Proofs.Grammar.Soundness.Program
import TreeWalker.Proofs.Scope.Values

/-!
# Trees of a source

A canonical tree that some tokens spell holds no other tokens, and its literals
are values that tokens carry.  Whatever a tree is made of has this property if the
tree has it.
-/

namespace TreeWalker

/-- A mark of a tree that the tokens spell: what is held is one of the tokens, and
a constant is a proper value. -/
def Mark.Grounded (tokens : List Token) : Mark → Prop
  | fixed _ => True
  | held token => token ∈ tokens
  | constant value => value.IsProper

/-- Marks that fit some of the tokens are grounded in the tokens. -/
theorem Mark.grounded_of_fit {tokens word : List Token} {marks : List Mark}
    (fits : Grammar.Fit marks word) (among : word ⊆ tokens) :
    ∀ mark ∈ marks, mark.Grounded tokens := by
  induction fits with
  | nil => exact fun _ member => absurd member List.not_mem_nil
  | @cons first token marks word firstFits _ inductionHypothesis =>
      obtain ⟨isAmong, others⟩ := List.cons_subset.mp among
      intro mark member
      rcases List.mem_cons.mp member with rfl | later
      · cases mark with
        | fixed kind => trivial
        | held same =>
            cases firstFits
            exact isAmong
        | constant value =>
            cases value with
            | integer => exact firstFits.elim
            | _ => trivial
      · exact inductionHypothesis others mark later

namespace Node

/-- All marks of a tree are grounded in the tokens. -/
def Grounded (tokens : List Token) (node : Node) : Prop :=
  ∀ mark ∈ node.spelling, mark.Grounded tokens

/-- A canonical expression that is grounded in the tokens. -/
structure IsExpressionOf (tokens : List Token) (node : Node) : Prop where
  canonical : node.IsExpression
  grounded : node.Grounded tokens

/-- A canonical statement or declaration that is grounded in the tokens. -/
structure IsStatementOf (tokens : List Token) (node : Node) : Prop where
  canonical : node.IsVariable ∨ node.IsStatement
  grounded : node.Grounded tokens

variable {tokens : List Token}

/-! ## Parts of expressions -/

namespace IsExpressionOf

variable {inner operand left right value : Node} {operator name : Token}

theorem isProper {constant : Value} (expr : (literal constant).IsExpressionOf tokens) :
    constant.IsProper :=
  expr.grounded _ List.mem_cons_self

theorem grouped (expr : (grouping inner).IsExpressionOf tokens) :
    inner.IsExpressionOf tokens := by
  refine ⟨expr.canonical, fun mark member => expr.grounded mark ?_⟩
  simp [spelling, member]

theorem operated (expr : (unary operator operand).IsExpressionOf tokens) :
    operand.IsExpressionOf tokens :=
  ⟨expr.canonical.2.2, fun mark member => expr.grounded mark (List.mem_cons_of_mem _ member)⟩

theorem combined (expr : (binary left operator right).IsExpressionOf tokens) :
    left.IsExpressionOf tokens ∧ right.IsExpressionOf tokens := by
  obtain ⟨_, leftCanonical, rightCanonical⟩ := expr.canonical
  obtain ⟨leftGrounded, others⟩ := List.forall_mem_append.mp expr.grounded
  exact ⟨⟨leftCanonical, leftGrounded⟩, rightCanonical, (List.forall_mem_cons.mp others).2⟩

theorem connected (expr : (logical left operator right).IsExpressionOf tokens) :
    left.IsExpressionOf tokens ∧ right.IsExpressionOf tokens := by
  obtain ⟨_, leftCanonical, rightCanonical⟩ := expr.canonical
  obtain ⟨leftGrounded, others⟩ := List.forall_mem_append.mp expr.grounded
  exact ⟨⟨leftCanonical, leftGrounded⟩, rightCanonical, (List.forall_mem_cons.mp others).2⟩

theorem referred (expr : (reference name).IsExpressionOf tokens) :
    name ∈ tokens ∧ name.kind = .identifier :=
  ⟨expr.grounded _ List.mem_cons_self, expr.canonical⟩

theorem target (expr : (assign name value).IsExpressionOf tokens) :
    name ∈ tokens ∧ name.kind = .identifier :=
  ⟨expr.grounded _ List.mem_cons_self, expr.canonical.1⟩

theorem assigned (expr : (assign name value).IsExpressionOf tokens) :
    value.IsExpressionOf tokens :=
  ⟨expr.canonical.2, fun mark member =>
    expr.grounded mark (List.mem_cons_of_mem _ (List.mem_cons_of_mem _ member))⟩

end IsExpressionOf

/-! ## Parts of statements -/

namespace IsStatementOf

variable {expr initializer condition thenBranch elseBranch body : Node} {name : Token}
  {nodes : List Node}

theorem evaluated (statement : (exprStmt expr).IsStatementOf tokens) :
    expr.IsExpressionOf tokens :=
  ⟨statement.canonical.resolve_left id, fun mark member =>
    statement.grounded mark (List.mem_append_left _ member)⟩

theorem printed (statement : (printStmt expr).IsStatementOf tokens) :
    expr.IsExpressionOf tokens :=
  ⟨statement.canonical.resolve_left id, fun mark member =>
    statement.grounded mark (List.mem_cons_of_mem _ (List.mem_append_left _ member))⟩

theorem initialized (statement : (varStmt name initializer).IsStatementOf tokens)
    (present : initializer ≠ .absent) : initializer.IsExpressionOf tokens := by
  have canonical := (statement.canonical.resolve_right id).2.resolve_left present
  refine ⟨canonical, fun mark member => statement.grounded mark ?_⟩
  simp [Grammar.spelling_varInit present, member]

theorem mem_spellingOfAll {node : Node} {mark : Mark} (member : node ∈ nodes)
    (isMark : mark ∈ node.spelling) : mark ∈ spellingOfAll nodes := by
  induction nodes with
  | nil => exact absurd member List.not_mem_nil
  | cons first nodes inductionHypothesis =>
      rcases List.mem_cons.mp member with rfl | member
      · exact List.mem_append_left _ isMark
      · exact List.mem_append_right _ (inductionHypothesis member)

theorem inBlock (statement : (blockStmt nodes).IsStatementOf tokens) :
    ∀ node ∈ nodes, node.IsStatementOf tokens := by
  have canonical : AreCanonical nodes := statement.canonical.resolve_left id
  intro node member
  refine ⟨Evaluation.isVariable_or_isStatement_of_mem canonical node member, fun mark isMark => ?_⟩
  exact statement.grounded mark (List.mem_cons_of_mem _
    (List.mem_append_left _ (mem_spellingOfAll member isMark)))

theorem mem_spelling_ifStmt {mark : Mark}
    (isMark : mark ∈ condition.spelling ∨ mark ∈ thenBranch.spelling ∨
      mark ∈ elseBranch.spelling) :
    mark ∈ (ifStmt condition thenBranch elseBranch).spelling := by
  by_cases present : elseBranch = .absent
  · subst present
    rcases isMark with isMark | isMark | isMark
    · simp [spelling, isMark]
    · simp [spelling, isMark]
    · exact absurd isMark List.not_mem_nil
  · rcases isMark with isMark | isMark | isMark <;>
      simp [Grammar.spelling_ifElse present, isMark]

theorem tested (statement : (ifStmt condition thenBranch elseBranch).IsStatementOf tokens) :
    condition.IsExpressionOf tokens :=
  ⟨(Evaluation.isStatement_parts (statement.canonical.resolve_left id)).1, fun mark isMark =>
    statement.grounded mark (mem_spelling_ifStmt (Or.inl isMark))⟩

theorem ifTrue (statement : (ifStmt condition thenBranch elseBranch).IsStatementOf tokens) :
    thenBranch.IsStatementOf tokens :=
  ⟨Or.inr (Evaluation.isStatement_parts (statement.canonical.resolve_left id)).2.1,
    fun mark isMark => statement.grounded mark (mem_spelling_ifStmt (Or.inr (Or.inl isMark)))⟩

theorem ifFalse (statement : (ifStmt condition thenBranch elseBranch).IsStatementOf tokens)
    (present : elseBranch ≠ .absent) : elseBranch.IsStatementOf tokens :=
  ⟨Or.inr ((Evaluation.isStatement_parts (statement.canonical.resolve_left id)).2.2 present),
    fun mark isMark => statement.grounded mark (mem_spelling_ifStmt (Or.inr (Or.inr isMark)))⟩

theorem looped (statement : (whileStmt condition body).IsStatementOf tokens) :
    condition.IsExpressionOf tokens ∧ body.IsStatementOf tokens := by
  have canonical : condition.IsExpression ∧ body.IsStatement := statement.canonical.resolve_left id
  constructor
  · refine ⟨canonical.1, fun mark isMark => statement.grounded mark ?_⟩
    simp [spelling, isMark]
  · refine ⟨Or.inr canonical.2, fun mark isMark => statement.grounded mark ?_⟩
    simp [spelling, isMark]

end IsStatementOf

end Node

namespace Grammar

/-- The statements of a body without stray tokens are grounded in its tokens. -/
theorem Body.areStatementsOf {nodes : List Node} {word : List Token} (body : Body nodes word [])
    (carries : ∀ token ∈ word, token.Carries) : ∀ node ∈ nodes, node.IsStatementOf word := by
  obtain ⟨canonical, spelt⟩ := Clause.reads body rfl _ rfl
  intro node member
  refine ⟨Evaluation.isVariable_or_isStatement_of_mem canonical node member, fun mark isMark => ?_⟩
  exact Mark.grounded_of_fit (spelt carries) (List.Subset.refl _) mark
    (Node.IsStatementOf.mem_spellingOfAll member isMark)

end Grammar

end TreeWalker
