import TreeWalker.Proofs.Grammar.Canonical
import TreeWalker.Proofs.Grammar.Settling

/-!
# Every phrase is taken

A phrase with a derivation is taken, wherever it stands and unless it is nested
too deeply, and the tree is that of the derivation.  How deep the phrase is
nested depends on the phrase alone and not on what follows it; in a phrase without
stray tokens it can be read off the tree.

Operations are derived from their last operator, but they are read from the
first.  So the induction is on what the parser makes of the rest, once the
operation is its left part.
-/

namespace TreeWalker.Grammar

/-- Levels of which no two share an operator, and none has one that ends the
source. -/
structure Separate (tiers : List Level) : Prop where
  sourceEnd : ∀ level ∈ tiers, level.accepts .eof = false
  disjoint : tiers.Pairwise fun looser tighter =>
    ∀ kind, looser.accepts kind = true → tighter.accepts kind = false

theorem separate_all : Separate Level.all := by
  refine ⟨fun _ member => Level.accepts_eof member, ?_⟩
  simp [Level.all, Level.accepts]

theorem Separate.tail {level : Level} {tiers : List Level} (separate : Separate (level :: tiers)) :
    Separate tiers :=
  ⟨fun other member => separate.sourceEnd other (List.mem_cons_of_mem _ member),
    (List.pairwise_cons.mp separate.disjoint).2⟩

/-- No operator of the given levels is next. -/
def Apart (tiers : List Level) (tokens : List Token) : Prop :=
  ∀ token ∈ tokens.head?, ∀ level ∈ tiers, level.accepts token.kind = false

/-- Neither an `=` nor an operator is next. -/
def Clear (tokens : List Token) : Prop :=
  (∀ token ∈ tokens.head?, token.kind ≠ .symbol .equal) ∧ Apart Level.all tokens

theorem clear_of_kind {token : Token} {kind : TokenKind} (same : token.kind = kind)
    (other : kind ≠ .symbol .equal) (apart : ∀ level ∈ Level.all, level.accepts kind = false)
    (rest : List Token) : Clear (token :: rest) :=
  ⟨by simpa [same] using other, by simpa [Apart, same] using apart⟩

/-! ## What is settled of a phrase -/

/-- Go on with an operation after a left part of its loosest level. -/
def resumed (operand : Parser Node) : List Level → Node → Parser Node
  | [], left => pure left
  | level :: tiers, left => continued level (operations operand tiers) left

/-- An operand is settled in front of any tokens. -/
def OperandSettled (depth : Nat) (node : Node) (word strays : List Token) : Prop :=
  ∀ limit rest, Ended rest →
    Settles (depth ≤ limit) (operand limit) node word strays rest

/-- An operation is settled in front of tokens that it does not go on with. -/
def OperationSettled (tiers : List Level) (depth : Nat) (node : Node)
    (word strays : List Token) : Prop :=
  ∀ limit rest, Ended rest → Apart tiers rest →
    Settles (depth ≤ limit) (operations (operand limit) tiers) node word strays rest

/-- An operation is settled in front of what makes it a longer operation, if the
rest is settled after it. -/
def OperationExtended (tiers : List Level) (depth : Nat) (node : Node)
    (word strays : List Token) : Prop :=
  ∀ limit fits whole word' strays' rest, Ended (word' ++ rest) →
    Apart tiers.tail (word' ++ rest) →
    Settles fits (resumed (operand limit) tiers node) whole word' strays' rest →
    Settles (depth ≤ limit ∧ fits) (operations (operand limit) tiers) whole (word ++ word')
      (strays ++ strays') rest

/-- An expression is settled in front of tokens that it does not go on with. -/
def ExpressionSettled (depth : Nat) (node : Node) (word strays : List Token) : Prop :=
  ∀ limit rest, Ended rest → Clear rest →
    Settles (depth ≤ limit) (expression limit) node word strays rest

/-- An expression in parentheses is settled if the expression is. -/
def ParenthesizedSettled (depth : Nat) (node : Node) (word strays : List Token) : Prop :=
  ∃ opening inner closing, word = opening :: (inner ++ [closing]) ∧
    opening.kind = .symbol .leftParen ∧ closing.kind = .symbol .rightParen ∧
    ExpressionSettled depth node inner strays

/-- What is settled of a phrase of a category that is nested so deep. -/
def Settled : Category → (depth : Nat) → Node → List Token → List Token → Prop
  | .operand => OperandSettled
  | .operation tiers => fun depth node word strays =>
    Separate tiers → OperationExtended tiers depth node word strays
  | .expression => ExpressionSettled
  | .parenthesized => ParenthesizedSettled

/-- The tree of a phrase tells how deep the phrase is nested. -/
def Nests : Category → (depth : Nat) → Node → Prop
  | .operand, depth, node => depth = node.nesting
  | .operation tiers, depth, node => tiers <:+ Level.all → depth = node.nesting
  | .expression, depth, node | .parenthesized, depth, node => depth = node.nesting + 1

/-! ## Operations -/

section Operations

variable {level : Level} {tiers : List Level} {operand : Parser Node} {left : Node} {depth : Nat}

theorem takes_continued {token : Token} (refused : level.accepts token.kind = false)
    (rest : List Token) : Takes (continued level operand left) left [] [] (token :: rest) := by
  intro cursor split
  have past := Cursor.Past.refl cursor
  rw [show cursor.ahead = token :: rest from split] at past
  exact ⟨cursor, continued_apply_none split refused, past⟩

/-- An operation that nothing follows is settled by itself. -/
theorem OperationExtended.settled {node : Node} {word strays : List Token}
    (extended : OperationExtended tiers depth node word strays) :
    OperationSettled tiers depth node word strays := by
  intro limit rest ended apart
  rcases ended.exists_cons with ⟨next, tail, rfl⟩
  have resumes : Takes (resumed (Grammar.operand limit) tiers node) node [] [] (next :: tail) := by
    cases tiers with
    | nil => exact Takes.pure node _
    | cons level tiers =>
        exact takes_continued (apart next (by simp) level List.mem_cons_self) tail
  have apartTail : Apart tiers.tail (next :: tail) := fun token isNext level member =>
    apart token isNext level (List.mem_of_mem_tail member)
  have whole := extended limit True node [] [] (next :: tail) ended apartTail
    (Settles.of_takes resumes)
  rw [List.append_nil, List.append_nil] at whole
  exact whole.congr (by simp)

/-- An operand is an operation that consists of nothing else. -/
theorem OperationExtended.of_operand {node : Node} {word strays : List Token}
    (settled : OperandSettled depth node word strays) :
    OperationExtended [] depth node word strays := by
  intro limit fits whole word' strays' rest ended _ rests
  have both := (settled limit (word' ++ rest) ended).bind Orderly.pure rests
  rw [bind_pure] at both
  exact both

/-- An operation of tighter operators is the left part of one of looser ones. -/
theorem OperationSettled.extended {node : Node} {word strays : List Token}
    (settled : OperationSettled tiers depth node word strays)
    (separate : Separate (level :: tiers)) :
    OperationExtended (level :: tiers) depth node word strays := by
  intro limit fits whole word' strays' rest ended apart rests
  have orderly := Orderly.operations separate.tail.sourceEnd (Orderly.operand limit)
  exact (settled limit (word' ++ rest) ended apart).bind
    (Orderly.continued (separate.sourceEnd level List.mem_cons_self) orderly) rests

/-- An operator and an operand after an operation make it a longer one. -/
theorem OperationExtended.apply {left right : Node} {operator : Token} {leftDepth rightDepth : Nat}
    {leftWord rightWord leftStrays rightStrays : List Token}
    (leftExtended : OperationExtended (level :: tiers) leftDepth left leftWord leftStrays)
    (isOperator : level.accepts operator.kind = true)
    (rightSettled : OperationSettled tiers rightDepth right rightWord rightStrays)
    (separate : Separate (level :: tiers)) :
    OperationExtended (level :: tiers) (max leftDepth rightDepth) (level.node left operator right)
      (leftWord ++ operator :: rightWord) (leftStrays ++ rightStrays) := by
  intro limit fits whole word' strays' rest ended apart rests
  have levelEnd := separate.sourceEnd level List.mem_cons_self
  have orderly := Orderly.operations separate.tail.sourceEnd (Orderly.operand limit)
  have advances := Advances.operations separate.tail.sourceEnd (Orderly.operand limit)
    (Advances.operand limit)
  have further : Settles (rightDepth ≤ limit ∧ fits)
      (continued level (operations (Grammar.operand limit) tiers) left) whole
      (operator :: (rightWord ++ word')) (rightStrays ++ strays') rest := by
    refine ((rightSettled limit (word' ++ rest) ended apart).bind
      (fun right => Orderly.continued levelEnd orderly (level.node left operator right))
      rests).pass fun cursor split => ?_
    apply continued_apply_some levelEnd orderly advances split isOperator
    rw [List.append_assoc]
    exact ended.append_left _
  have longEnded : Ended ((operator :: (rightWord ++ word')) ++ rest) := by
    rw [List.cons_append, List.append_assoc]
    exact (ended.append_left rightWord).append_left [operator]
  have apartOperator : Apart tiers ((operator :: (rightWord ++ word')) ++ rest) := by
    intro token isNext other member
    cases isNext
    exact (List.pairwise_cons.mp separate.disjoint).1 other member operator.kind isOperator
  have all := leftExtended limit _ whole _ _ rest longEnded apartOperator further
  simp only [List.append_assoc, List.cons_append] at all ⊢
  exact all.congr (by rw [Nat.max_le, and_assoc])

end Operations

/-! ## Operands -/

theorem isUnaryOperator_of_literal {token : Token} {value : Value}
    (constant : literalValue? token = some value) : isUnaryOperator token.kind = false := by
  unfold literalValue? at constant
  split at constant <;> simp_all [isUnaryOperator]

theorem operand_zero : operand 0 = throw .overNested := by
  rw [operand]

theorem expression_zero : expression 0 = throw .overNested := by
  rw [expression]

theorem OperandSettled.of_rule {node : Node} {word strays : List Token} {depth : Nat}
    (settles : ∀ limit rest, Ended rest →
      Settles (depth ≤ limit) (operandOf (operand limit) (expression limit)) node word strays
        rest) : OperandSettled (depth + 1) node word strays := by
  intro limit rest ended
  refine Settles.succ operand_zero (fun limit => ?_) limit
  rw [operand]
  exact settles limit rest ended

/-- An operand that begins with no operator is an atom. -/
theorem Settles.of_atom {operand nested : Parser Node} {node : Node} {token : Token} {fits : Prop}
    {word strays rest : List Token} (noOperator : isUnaryOperator token.kind = false)
    (settles : Settles fits (atom nested) node (token :: word) strays rest) :
    Settles fits (operandOf operand nested) node (token :: word) strays rest := by
  have looks : Takes (accept? isUnaryOperator) none [] [] (token :: word ++ rest) :=
    takes_accept?_none noOperator _
  exact Settles.after looks settles

theorem OperandSettled.literal {token : Token} {value : Value}
    (constant : literalValue? token = some value) :
    OperandSettled 1 (.literal value) [token] [] := by
  refine OperandSettled.of_rule fun limit rest _ => ?_
  apply Settles.of_atom (isUnaryOperator_of_literal constant)
  refine ((Settles.of_takes (Takes.pure _ rest)).pass fun cursor split => ?_).congr (by simp)
  exact atom_apply_literal split constant

theorem OperandSettled.reference {name : Token} (isName : name.kind = .identifier) :
    OperandSettled 1 (.reference name) [name] [] := by
  refine OperandSettled.of_rule fun limit rest _ => ?_
  apply Settles.of_atom (by simp [isName, isUnaryOperator])
  refine ((Settles.of_takes (Takes.pure _ rest)).pass fun cursor split => ?_).congr (by simp)
  exact atom_apply_identifier split isName

theorem OperandSettled.grouping {inner : Node} {word strays : List Token} {depth : Nat}
    (settled : ParenthesizedSettled depth inner word strays) :
    OperandSettled (depth + 1) (.grouping inner) word strays := by
  obtain ⟨opening, innerWord, closing, rfl, isOpening, isClosing, settles⟩ := settled
  refine OperandSettled.of_rule fun limit rest ended => ?_
  apply Settles.of_atom (by simp [isOpening, isUnaryOperator])
  have clear : Clear (closing :: rest) :=
    clear_of_kind isClosing (by simp) (by simp [Level.all, Level.accepts]) rest
  have inside := settles limit ([closing] ++ rest) (ended.append_left [closing]) clear
  have orderly (node : Node) : Orderly (expect (.symbol .rightParen) .groupClosing >>= fun _ =>
      pure (Node.grouping node)) :=
    (Orderly.expect (by simp) _).bind fun _ => Orderly.pure _
  rw [← List.append_nil strays]
  exact (inside.before orderly (takes_expect_pure isClosing _ _ rest)).pass
    fun cursor split => atom_apply_group split isOpening

theorem OperandSettled.unary {operator : Token} {operand : Node} {word strays : List Token}
    {depth : Nat} (isOperator : isUnaryOperator operator.kind = true)
    (settled : OperandSettled depth operand word strays) :
    OperandSettled (depth + 1) (.unary operator operand) (operator :: word) strays := by
  refine OperandSettled.of_rule fun limit rest ended => ?_
  exact Settles.after (takes_accept?_some isOperator _)
    ((settled limit rest ended).map (Node.unary operator))

/-! ## Expressions -/

theorem ExpressionSettled.of_rule {node : Node} {word strays : List Token} {depth : Nat}
    (settles : ∀ limit rest, Ended rest → Clear rest →
      Settles (depth ≤ limit) (expressionOf (operand limit) (expression limit)) node word strays
        rest) : ExpressionSettled (depth + 1) node word strays := by
  intro limit rest ended clear
  refine Settles.succ expression_zero (fun limit => ?_) limit
  rw [expression]
  exact settles limit rest ended clear

theorem ExpressionSettled.plain {node : Node} {word strays : List Token} {depth : Nat}
    (settled : OperationSettled Level.all depth node word strays) :
    ExpressionSettled (depth + 1) node word strays := by
  refine ExpressionSettled.of_rule fun limit rest ended clear => ?_
  rcases ended.exists_cons with ⟨next, tail, rfl⟩
  have stops : Takes (assignmentRest (expression limit) node) node [] [] (next :: tail) := by
    intro cursor split
    have past := Cursor.Past.refl cursor
    rw [show cursor.ahead = next :: tail from split] at past
    exact ⟨cursor, assignmentRest_apply_other split (clear.1 next (by simp)), past⟩
  rw [expressionOf_eq]
  simpa using (settled limit (next :: tail) ended clear.2).before
    (Orderly.assignmentRest (Orderly.expression limit)) stops

theorem ExpressionSettled.assign {target value : Node} {equal : Token}
    {targetWord valueWord targetStrays valueStrays : List Token} {targetDepth valueDepth : Nat}
    (targetSettled : OperationSettled Level.all targetDepth target targetWord targetStrays)
    (isEqual : equal.kind = .symbol .equal)
    (valueSettled : ExpressionSettled valueDepth value valueWord valueStrays) :
    ExpressionSettled (max targetDepth valueDepth + 1) (assigned target value)
      (targetWord ++ equal :: valueWord)
      (targetStrays ++ (valueStrays ++ strayFor target equal)) := by
  refine ExpressionSettled.of_rule fun limit rest ended clear => ?_
  have assigns (position : Nat) := (valueSettled limit rest ended clear).before
    (Orderly.assignTo target position equal) (takes_assignTo target position equal value rest)
  simp only [List.append_nil] at assigns
  let assignment : Parser Node := fun cursor =>
    (expression limit >>= fun value => assignTo target (cursor.position - 1) equal value) cursor
  have anywhere : Settles (valueDepth ≤ limit) assignment (assigned target value) valueWord
      (valueStrays ++ strayFor target equal) rest :=
    ⟨fun fitting cursor => (assigns (cursor.position - 1)).takes fitting cursor,
      fun tooDeep cursor => (assigns (cursor.position - 1)).givesUp tooDeep cursor⟩
  have further : Settles (valueDepth ≤ limit) (assignmentRest (expression limit) target)
      (assigned target value) (equal :: valueWord) (valueStrays ++ strayFor target equal) rest :=
    anywhere.pass fun cursor split => assignmentRest_apply_equal split isEqual
  have apart : Apart Level.all (equal :: valueWord ++ rest) := by
    simp [Apart, isEqual, Level.all, Level.accepts]
  rw [expressionOf_eq]
  exact ((targetSettled limit _ (ended.append_left _) apart).bind
    (Orderly.assignmentRest (Orderly.expression limit)) further).congr Nat.max_le.symm

/-! ## Phrases -/

/-- A phrase is settled at the depth of its nesting, which is that of its tree if no
token of it is stray. -/
theorem Phrase.settled {category : Category} {node : Node} {word strays : List Token}
    (phrase : Phrase category node word strays) :
    ∃ depth, Settled category depth node word strays ∧
      (strays = [] → Nests category depth node) := by
  induction phrase with
  | literal constant =>
      exact ⟨1, OperandSettled.literal constant, fun _ => by rw [Nests, Node.nesting]⟩
  | reference isName =>
      exact ⟨1, OperandSettled.reference isName, fun _ => by rw [Nests, Node.nesting]⟩
  | grouping _ inductionHypothesis =>
      obtain ⟨depth, settled, nests⟩ := inductionHypothesis
      refine ⟨depth + 1, OperandSettled.grouping settled, fun clean => ?_⟩
      rw [Nests, nests clean, Node.nesting]
  | unary isOperator _ inductionHypothesis =>
      obtain ⟨depth, settled, nests⟩ := inductionHypothesis
      refine ⟨depth + 1, OperandSettled.unary isOperator settled, fun clean => ?_⟩
      rw [Nests, nests clean, Node.nesting]
  | tightest _ inductionHypothesis =>
      obtain ⟨depth, settled, nests⟩ := inductionHypothesis
      exact ⟨depth, fun _ => OperationExtended.of_operand settled, fun clean _ => nests clean⟩
  | tighter _ inductionHypothesis =>
      obtain ⟨depth, settled, nests⟩ := inductionHypothesis
      exact ⟨depth, fun separate => (settled separate.tail).settled.extended separate,
        fun clean suffix => nests clean ((List.suffix_cons _ _).trans suffix)⟩
  | apply _ isOperator _ leftHypothesis rightHypothesis =>
      obtain ⟨leftDepth, leftSettled, leftNests⟩ := leftHypothesis
      obtain ⟨rightDepth, rightSettled, rightNests⟩ := rightHypothesis
      refine ⟨max leftDepth rightDepth, fun separate => (leftSettled separate).apply isOperator
        (rightSettled separate.tail).settled separate, fun clean suffix => ?_⟩
      obtain ⟨leftClean, rightClean⟩ := List.append_eq_nil_iff.mp clean
      rw [leftNests leftClean suffix,
        rightNests rightClean ((List.suffix_cons _ _).trans suffix)]
      rcases strength_of_accepts suffix isOperator with ⟨same, _⟩ | ⟨same, _⟩ <;>
        rw [same, Node.nesting]
  | plain _ inductionHypothesis =>
      obtain ⟨depth, settled, nests⟩ := inductionHypothesis
      refine ⟨depth + 1, ExpressionSettled.plain (settled separate_all).settled,
        fun clean => ?_⟩
      rw [Nests, nests clean (List.suffix_refl _)]
  | @assign target value _ _ _ _ _ _ isEqual _ targetHypothesis valueHypothesis =>
      obtain ⟨targetDepth, targetSettled, targetNests⟩ := targetHypothesis
      obtain ⟨valueDepth, valueSettled, valueNests⟩ := valueHypothesis
      refine ⟨max targetDepth valueDepth + 1, ExpressionSettled.assign
        (targetSettled separate_all).settled isEqual valueSettled, fun clean => ?_⟩
      obtain ⟨targetClean, others⟩ := List.append_eq_nil_iff.mp clean
      obtain ⟨valueClean, noStray⟩ := List.append_eq_nil_iff.mp others
      rw [targetNests targetClean (List.suffix_refl _), valueNests valueClean]
      -- Without a stray token the target is a variable, nested no deeper than the value.
      cases target with
      | reference name => simp [Nests, Node.nesting, assigned]
      | _ => cases noStray
  | parenthesized isOpening _ isClosing inductionHypothesis =>
      obtain ⟨depth, settled, nests⟩ := inductionHypothesis
      exact ⟨depth, ⟨_, _, _, rfl, isOpening, isClosing, settled⟩, nests⟩

end TreeWalker.Grammar
