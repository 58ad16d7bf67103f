import TreeWalker.Proofs.Grammar.Loop

/-!
# Failures and open blocks

Recovery can fail in one way only: the tokens run out.  So a declaration rejects
no token for good, a program is not given up, and what stops either of them is
the end of a list that has no token for the end of the source.

The number of open blocks is what it was whenever a parser succeeds, and whenever
it rejects a token, since a block is closed before the brace after it is asked
for.  A block left open by a declaration that is given up is closed by
abandonment.
-/

namespace TreeWalker.Grammar

variable {α β : Type}

/-! ## Running out of tokens -/

/-- A parser that stops only where the tokens run out. -/
def Unfailing (parser : Parser α) : Prop :=
  ∀ cursor stop after, parser cursor = .error stop after → stop = .exhausted

namespace Unfailing

variable {parser : Parser α}

theorem pure (a : α) : Unfailing (Pure.pure a : Parser α) := fun _ _ _ run => by cases run

theorem get : Unfailing (MonadState.get : Parser Cursor) := fun _ _ _ run => by cases run

theorem modify (change : Cursor → Cursor) : Unfailing (modify change : Parser PUnit) :=
  fun _ _ _ run => by cases run

theorem exhausted : Unfailing (throw .exhausted : Parser α) := fun _ _ _ run => by
  cases run
  rfl

theorem bind {next : α → Parser β} (first : Unfailing parser) (second : ∀ a, Unfailing (next a)) :
    Unfailing (parser >>= next) := by
  intro cursor stop after run
  rw [bind_apply] at run
  cases firstRun : parser cursor with
  | ok a middle =>
      rw [firstRun] at run
      exact second a middle stop after run
  | error other middle =>
      rw [firstRun] at run
      cases run
      exact first cursor stop after firstRun

theorem nextToken : Unfailing nextToken := by
  intro cursor stop after run
  unfold Grammar.nextToken at run
  split at run <;> cases run
  rfl

theorem passToken : Unfailing passToken := by
  intro cursor stop after run
  unfold Grammar.passToken at run
  split at run <;> cases run
  rfl

theorem skipToBoundary (tokens : List Token) : Unfailing (skipToBoundary tokens) := by
  induction tokens with
  | nil => exact exhausted
  | cons token rest inductionHypothesis =>
      refine get.bind fun cursor => ?_
      split
      · exact pure ()
      · exact passToken.bind fun _ => inductionHypothesis

theorem recover (start : Nat) : Unfailing (recover start) := by
  refine nextToken.bind fun token => get.bind fun cursor => ?_
  dsimp only
  split
  · exact passToken.bind fun _ => get.bind fun _ => skipToBoundary _
  · exact get.bind fun _ => skipToBoundary _

theorem abandon (start : Nat) : Unfailing (abandon start) :=
  (nextToken.bind fun _ => get.bind fun _ => modify _).bind fun _ =>
    (modify _).bind fun _ => recover start

end Unfailing

/-- A list of items stops short where one of the items does. -/
theorem collect_error {ends : TokenKind → Bool} {item : Parser (Option α)} {fuel : Nat}
    {collected : List α} {cursor after : Cursor} {stop : Stop}
    (run : collect ends item fuel collected cursor = .error stop after) :
    stop = .exhausted ∨ ∃ start, item start = .error stop after := by
  induction fuel generalizing collected cursor with
  | zero =>
      refine Or.inl ((Unfailing.nextToken.bind fun token => ?_) cursor stop after run)
      split
      · exact Unfailing.pure _
      · exact Unfailing.exhausted
  | succ fuel inductionHypothesis =>
      cases split : cursor.ahead with
      | nil =>
          rw [collect_apply_nil split] at run
          cases run
          exact Or.inl rfl
      | cons token rest =>
          cases isEnd : ends token.kind with
          | true =>
              rw [collect_apply_ends split isEnd] at run
              cases run
          | false =>
              rw [collect_apply_item split isEnd, bind_apply] at run
              cases itemRun : item cursor with
              | ok found middle =>
                  rw [itemRun] at run
                  exact inductionHypothesis run
              | error other middle =>
                  rw [itemRun] at run
                  cases run
                  exact Or.inr ⟨cursor, itemRun⟩

/-- A declaration recovers from the token that it rejects. -/
theorem declarationOf_ne_rejected (expr nested : Parser Node) (cursor after : Cursor) :
    declarationOf expr nested cursor ≠ .error .rejected after := by
  intro run
  rw [declarationOf_apply] at run
  cases bareRun : bareDeclaration expr nested cursor with
  | ok node middle =>
      rw [recovering_apply_ok bareRun] at run
      cases run
  | error stop middle =>
      by_cases rejected : stop = .rejected
      · subst rejected
        rw [recovering_apply_rejected bareRun] at run
        have stops := ((Unfailing.recover cursor.position).bind fun _ => .pure _) _ _ _ run
        cases stops
      · rw [recovering_apply_error bareRun rejected] at run
        cases run
        contradiction

theorem many_ne_rejected {ends : TokenKind → Bool} {item : Parser (Option α)}
    (items : ∀ cursor after, item cursor ≠ .error .rejected after) (cursor after : Cursor) :
    many ends item cursor ≠ .error .rejected after := by
  intro run
  rcases collect_error run with isExhausted | ⟨start, itemRun⟩
  · cases isExhausted
  · exact items start after itemRun

theorem Unfailing.topDeclaration (levels : Nat) : Unfailing (topDeclaration levels) := by
  intro cursor stop after run
  rw [topDeclaration_apply] at run
  cases declarationRun : declaration levels cursor with
  | ok found middle =>
      rw [abandoning_apply_ok declarationRun] at run
      cases run
  | error other middle =>
      by_cases overNested : other = .overNested
      · subst overNested
        rw [abandoning_apply_overNested declarationRun] at run
        exact ((Unfailing.abandon cursor.position).bind fun _ => .pure _) _ _ _ run
      · rw [abandoning_apply_error declarationRun overNested] at run
        cases run
        cases stop with
        | rejected => exact absurd declarationRun (declarationOf_ne_rejected _ _ _ _)
        | overNested => contradiction
        | exhausted => rfl

/-- A program stops only where the tokens run out. -/
theorem Unfailing.program (levels : Nat) : Unfailing (program levels) := by
  intro cursor stop after run
  rcases collect_error run with isExhausted | ⟨start, itemRun⟩
  · exact isExhausted
  · exact topDeclaration levels _ _ _ itemRun

/-! ## Open blocks -/

/-- So many blocks are open at an end that is a success or a rejection. -/
def LeavesOpen (blocks : Nat) : EStateM.Result Stop Cursor α → Prop
  | .ok _ after | .error .rejected after => after.openBlocks = blocks
  | .error _ _ => True

/-- A parser that has closed the blocks it opened when it succeeds or rejects a
token. -/
def Balanced (parser : Parser α) : Prop :=
  ∀ cursor : Cursor, LeavesOpen cursor.openBlocks (parser cursor)

namespace Balanced

variable {parser : Parser α}

theorem pure (a : α) : Balanced (Pure.pure a : Parser α) := fun _ => rfl

theorem throw (stop : Stop) : Balanced (MonadExcept.throw stop : Parser α) := fun _ => by
  cases stop <;> trivial

theorem get : Balanced (MonadState.get : Parser Cursor) := fun _ => rfl

theorem bind {next : α → Parser β} (first : Balanced parser) (second : ∀ a, Balanced (next a)) :
    Balanced (parser >>= next) := by
  intro cursor
  have closed := first cursor
  rw [bind_apply]
  cases run : parser cursor with
  | ok a middle =>
      rw [run] at closed
      have closedNext := second a middle
      rwa [show middle.openBlocks = cursor.openBlocks from closed] at closedNext
  | error stop middle =>
      rw [run] at closed
      cases stop <;> exact closed

theorem nextToken : Balanced nextToken := by
  intro cursor
  unfold Grammar.nextToken
  split <;> trivial

theorem passToken : Balanced passToken := by
  intro cursor
  unfold Grammar.passToken
  split <;> trivial

theorem note (position : Nat) (token : Token) (fault : Fault) :
    Balanced (note position token fault) := fun _ => rfl

theorem reject (fault : Fault) : Balanced (reject fault : Parser α) :=
  (nextToken.bind fun token => get.bind fun cursor => note cursor.position token fault).bind
    fun _ => throw .rejected

/-- What comes of a token that may be there. -/
theorem accept {accepts : TokenKind → Bool} {next : Option Token → Parser β}
    (found : ∀ token, Balanced (next (some token))) (missing : Balanced (next none)) :
    Balanced (accept? accepts >>= next) := by
  refine bind (nextToken.bind fun token => ?_) fun
    | none => missing
    | some token => found token
  split
  · exact passToken.bind fun _ => pure _
  · exact pure _

theorem expect (kind : TokenKind) (fault : Fault) : Balanced (expect kind fault) :=
  accept pure (reject fault)

/-! ### Expressions -/

section Expressions

variable {operand nested : Parser Node}

theorem chain (level : Level) (operands : Balanced operand) (fuel : Nat) (left : Node)
    (operator : Token) : Balanced (chain level operand fuel left operator) := by
  induction fuel generalizing left operator with
  | zero => exact throw .exhausted
  | succ fuel inductionHypothesis =>
      exact operands.bind fun right => accept (inductionHypothesis _) (pure _)

theorem operations (operands : Balanced operand) (levels : List Level) :
    Balanced (operations operand levels) := by
  induction levels with
  | nil => exact operands
  | cons level tighter inductionHypothesis =>
      exact inductionHypothesis.bind fun left =>
        accept (fun operator => get.bind fun _ => chain level inductionHypothesis _ left operator)
          (pure left)

theorem atom (inner : Balanced nested) : Balanced (atom nested) := by
  refine nextToken.bind fun token => ?_
  split
  · exact passToken.bind fun _ => pure _
  · split
    · exact passToken.bind fun _ => pure _
    · exact passToken.bind fun _ => inner.bind fun _ => (expect _ _).bind fun _ => pure _
    · exact reject .expression

theorem assignTo (target : Node) (position : Nat) (equal : Token) (value : Node) :
    Balanced (assignTo target position equal value) := by
  cases target
  case reference name => exact pure _
  all_goals exact (note position equal .assignmentTarget).bind fun _ => pure _

theorem expressionOf (operands : Balanced operand) (inner : Balanced nested) :
    Balanced (expressionOf operand nested) :=
  (operations operands Level.all).bind fun target => get.bind fun cursor =>
    accept (fun equal => inner.bind fun value => assignTo target cursor.position equal value)
      (pure target)

theorem operandOf (operands : Balanced operand) (inner : Balanced nested) :
    Balanced (operandOf operand nested) :=
  accept (fun _ => operands.bind fun _ => pure _) (atom inner)

end Expressions

theorem expression_and_operand (levels : Nat) :
    Balanced (expression levels) ∧ Balanced (operand levels) := by
  induction levels with
  | zero => exact ⟨throw .overNested, throw .overNested⟩
  | succ levels inductionHypothesis =>
      rcases inductionHypothesis with ⟨expressions, operands⟩
      exact ⟨expressionOf operands expressions, operandOf operands expressions⟩

theorem expression (levels : Nat) : Balanced (expression levels) :=
  (expression_and_operand levels).1

/-! ### Recovery -/

theorem skipToBoundary (tokens : List Token) : Balanced (skipToBoundary tokens) := by
  induction tokens with
  | nil => exact throw .exhausted
  | cons token rest inductionHypothesis =>
      refine get.bind fun cursor => ?_
      split
      · exact pure ()
      · exact passToken.bind fun _ => inductionHypothesis

theorem recover (start : Nat) : Balanced (recover start) := by
  refine nextToken.bind fun token => get.bind fun cursor => ?_
  dsimp only
  split
  · exact passToken.bind fun _ => get.bind fun _ => skipToBoundary _
  · exact get.bind fun _ => skipToBoundary _

theorem recovering (closes : Balanced parser) (start : Nat) :
    Balanced (recovering start parser) := by
  intro cursor
  have closed := closes cursor
  cases run : parser cursor with
  | ok a middle =>
      rw [run] at closed
      rw [recovering_apply_ok run]
      exact closed
  | error stop middle =>
      rw [run] at closed
      by_cases rejected : stop = .rejected
      · subst rejected
        rw [recovering_apply_rejected run]
        have closedNext := ((recover start).bind fun _ => pure (none : Option α)) middle
        rwa [show middle.openBlocks = cursor.openBlocks from closed] at closedNext
      · rw [recovering_apply_error run rejected]
        cases stop <;> trivial

/-! ### Statements -/

section Statements

variable {expr nested : Parser Node}

theorem sentence (sentence : Sentence) (node : Node) :
    Balanced (do sentenceEnd sentence; return node) :=
  ((expect _ _).bind fun _ => pure ()).bind fun _ => pure node

theorem condition (guarded : Guarded) (exprs : Balanced expr) :
    Balanced (condition guarded expr) :=
  (expect _ _).bind fun _ => exprs.bind fun _ => (expect _ _).bind fun _ => pure _

theorem ifRest (exprs : Balanced expr) (inner : Balanced nested) : Balanced (ifRest expr nested) :=
  (condition .branch exprs).bind fun _ => inner.bind fun _ =>
    accept (fun _ => inner.bind fun _ => pure _) (pure _)

theorem whileRest (exprs : Balanced expr) (inner : Balanced nested) :
    Balanced (whileRest expr nested) :=
  (condition .loop exprs).bind fun _ => inner.bind fun _ => pure _

theorem varRest (exprs : Balanced expr) : Balanced (varRest expr) :=
  (expect _ _).bind fun _ => accept (fun _ => exprs.bind fun _ => sentence _ _) (sentence _ _)

theorem bareDeclaration (exprs : Balanced expr) (inner : Balanced nested) :
    Balanced (bareDeclaration expr nested) :=
  accept (fun _ => varRest exprs) inner

theorem declarationOf (exprs : Balanced expr) (inner : Balanced nested) :
    Balanced (declarationOf expr nested) :=
  get.bind fun _ => recovering (bareDeclaration exprs inner) _

theorem collect (ends : TokenKind → Bool) {item : Parser (Option α)} (items : Balanced item)
    (fuel : Nat) (collected : List α) : Balanced (collect ends item fuel collected) := by
  induction fuel generalizing collected with
  | zero =>
      refine nextToken.bind fun token => ?_
      split
      · exact pure _
      · exact throw .exhausted
  | succ fuel inductionHypothesis =>
      refine nextToken.bind fun token => ?_
      split
      · exact pure _
      · exact items.bind fun
          | some a => inductionHypothesis (a :: collected)
          | none => inductionHypothesis collected

theorem many (ends : TokenKind → Bool) {item : Parser (Option α)} (items : Balanced item) :
    Balanced (many ends item) :=
  get.bind fun _ => collect ends items _ []

/-- A block is closed when the brace after it is asked for, and nothing in it is
rejected for good. -/
theorem blockRest {item : Parser (Option Node)} (items : Balanced item)
    (recovers : ∀ cursor after, item cursor ≠ .error .rejected after) :
    Balanced (blockRest item) := by
  intro cursor
  let opened : Cursor := { cursor with openBlocks := cursor.openBlocks + 1 }
  have closed := many endsBlock items opened
  change LeavesOpen _ ((Grammar.many endsBlock item >>= _) opened)
  rw [bind_apply]
  cases run : Grammar.many endsBlock item opened with
  | ok body middle =>
      rw [run] at closed
      have same : middle.openBlocks - 1 = cursor.openBlocks := by
        rw [show middle.openBlocks = cursor.openBlocks + 1 from closed, Nat.add_sub_cancel]
      have closedNext := ((expect (.symbol .rightBrace) .blockClosing).bind fun _ =>
        pure (Node.blockStmt body)) { middle with openBlocks := middle.openBlocks - 1 }
      rw [← same]
      exact closedNext
  | error stop middle =>
      cases stop with
      | rejected => exact absurd run (many_ne_rejected recovers opened middle)
      | overNested => trivial
      | exhausted => trivial

theorem statementOf (exprs : Balanced expr) (inner : Balanced nested) :
    Balanced (statementOf expr nested) := by
  refine accept (fun lead => ?_) (exprs.bind fun _ => sentence _ _)
  dsimp only
  split
  · exact exprs.bind fun _ => sentence _ _
  · exact ifRest exprs inner
  · exact whileRest exprs inner
  · exact blockRest (declarationOf exprs inner) (declarationOf_ne_rejected expr nested)

end Statements

theorem statement (levels : Nat) : Balanced (statement levels) := by
  induction levels with
  | zero => exact throw .overNested
  | succ levels inductionHypothesis => exact statementOf (expression levels) inductionHypothesis

theorem declaration (levels : Nat) : Balanced (declaration levels) :=
  declarationOf (expression levels) (statement levels)

end Balanced

end TreeWalker.Grammar
