import TreeWalker.Proofs.Grammar.Loop

/-!
# Parsing comes to a result

On a token list with a token for the end, no parser of the grammar runs out of
tokens: each of them looks at one token only, none passes the end, and the loops
have as many rounds as they can use.  Recovery always finds a boundary, at the
latest at the end of the source.  So what a declaration rejects, or what is
nested too deeply in it, is dealt with there, and a program has a result whatever
its tokens are.
-/

namespace TreeWalker.Grammar

variable {α β : Type}

/-- Where the source has an end, the parser comes to a result. -/
def Succeeds (parser : Parser α) : Prop :=
  ∀ cursor : Cursor, Ended cursor.ahead → ∃ a after, parser cursor = .ok a after

/-- Where the source has an end, the parser does not stop in the given way. -/
def Avoids (stop : Stop) (parser : Parser α) : Prop :=
  ∀ cursor after, Ended cursor.ahead → parser cursor ≠ .error stop after

namespace Succeeds

variable {parser : Parser α}

theorem pure (a : α) : Succeeds (Pure.pure a : Parser α) :=
  fun cursor _ => ⟨a, cursor, rfl⟩

theorem get : Succeeds (MonadState.get : Parser Cursor) :=
  fun cursor _ => ⟨cursor, cursor, rfl⟩

theorem modify (change : Cursor → Cursor) : Succeeds (modify change : Parser PUnit) :=
  fun cursor _ => ⟨_, change cursor, rfl⟩

theorem bind {next : α → Parser β} (orderly : Orderly parser) (first : Succeeds parser)
    (second : ∀ a, Succeeds (next a)) : Succeeds (parser >>= next) := by
  intro cursor ended
  rcases first cursor ended with ⟨a, middle, run⟩
  rw [bind_apply_ok run]
  exact second a middle ((orderly.leads run).ended ended)

theorem avoids (succeeds : Succeeds parser) (stop : Stop) : Avoids stop parser := by
  intro cursor after ended run
  obtain ⟨_, _, comes⟩ := succeeds cursor ended
  rw [run] at comes
  cases comes

/-- A parser that cannot stop comes to a result. -/
theorem of_avoids (avoids : ∀ stop, Avoids stop parser) : Succeeds parser := by
  intro cursor ended
  cases run : parser cursor with
  | ok a after => exact ⟨a, after, rfl⟩
  | error stop after => exact absurd run (avoids stop cursor after ended)

theorem nextToken : Succeeds nextToken := by
  intro cursor ended
  rcases ended.exists_cons with ⟨token, rest, split⟩
  exact ⟨token, cursor, nextToken_apply split⟩

theorem accept? (accepts : TokenKind → Bool) : Succeeds (accept? accepts) := by
  intro cursor ended
  rcases ended.exists_cons with ⟨token, rest, split⟩
  cases accepted : accepts token.kind with
  | true => exact ⟨_, _, accept?_apply_some split accepted⟩
  | false => exact ⟨_, _, accept?_apply_none split accepted⟩

theorem noteNext (fault : Fault) : Succeeds (noteNext fault) := by
  intro cursor ended
  rcases ended.exists_cons with ⟨token, rest, split⟩
  exact ⟨(), _, noteNext_apply split fault⟩

theorem assignTo (target : Node) (position : Nat) (equal : Token) (value : Node) :
    Succeeds (assignTo target position equal value) := by
  cases target
  case reference name => exact pure _
  all_goals exact bind (Orderly.note position equal .assignmentTarget) (modify _) fun _ => pure _

/-- The end of the source is a boundary. -/
theorem skipToBoundary {cursor : Cursor} {tokens : List Token} (ahead : cursor.ahead = tokens)
    (ended : Ended tokens) : ∃ after, skipToBoundary tokens cursor = .ok () after := by
  induction tokens generalizing cursor with
  | nil => exact absurd rfl ended.ne_nil
  | cons token rest inductionHypothesis =>
      by_cases boundary : atBoundary cursor token.kind = true
      · exact ⟨cursor, skipToBoundary_apply_boundary boundary rest⟩
      · rw [skipToBoundary_apply_other ahead boundary]
        exact inductionHypothesis rfl (ended.tail (ne_eof_of_not_atBoundary boundary))

theorem recover (start : Nat) : Succeeds (recover start) := by
  intro cursor ended
  obtain ⟨token, rest, split⟩ := ended.exists_cons
  rw [recover_apply split]
  split
  · next skips =>
      have inside : token.kind ≠ .eof := by
        simp only [Bool.and_eq_true, bne_iff_ne, ne_eq] at skips
        exact skips.2
      rw [split] at ended
      have ahead : (cursor.after token rest).ahead = rest := rfl
      rcases skipToBoundary ahead (ended.tail inside) with ⟨after, run⟩
      exact ⟨(), after, run⟩
  · rcases skipToBoundary split (split ▸ ended) with ⟨after, run⟩
    exact ⟨(), after, run⟩

theorem abandon (start : Nat) : Succeeds (abandon start) :=
  bind (Orderly.noteNext .nesting) (noteNext .nesting) fun _ =>
    bind (Orderly.modifyOpenBlocks _) (modify _) fun _ => recover start

end Succeeds

namespace Avoids

variable {stop : Stop} {parser : Parser α}

theorem throw {other : Stop} (different : other ≠ stop) :
    Avoids stop (MonadExcept.throw other : Parser α) := by
  rintro cursor after _ ⟨⟩
  exact different rfl

theorem pure (a : α) : Avoids stop (Pure.pure a : Parser α) :=
  (Succeeds.pure a).avoids stop

theorem bind {next : α → Parser β} (orderly : Orderly parser) (first : Avoids stop parser)
    (second : ∀ a, Avoids stop (next a)) : Avoids stop (parser >>= next) := by
  intro cursor after ended run
  rw [bind_apply] at run
  cases firstRun : parser cursor with
  | ok a middle =>
      rw [firstRun] at run
      exact second a middle after ((orderly.leads firstRun).ended ended) run
  | error _ middle =>
      rw [firstRun] at run
      cases run
      exact first cursor _ ended firstRun

/-- A parser after one that comes to a result. -/
theorem after {next : α → Parser β} (orderly : Orderly parser) (first : Succeeds parser)
    (second : ∀ a, Avoids stop (next a)) : Avoids stop (parser >>= next) :=
  bind orderly (first.avoids stop) second

theorem accept {accepts : TokenKind → Bool} (sourceEnd : accepts .eof = false)
    {next : Option Token → Parser β} (found : ∀ token, Avoids stop (next (some token)))
    (missing : Avoids stop (next none)) : Avoids stop (accept? accepts >>= next) :=
  after (Orderly.accept? sourceEnd) (Succeeds.accept? accepts) fun
    | none => missing
    | some token => found token

theorem reject (fault : Fault) : Avoids .exhausted (reject fault : Parser α) :=
  after (Orderly.noteNext fault) (Succeeds.noteNext fault) fun _ => throw Stop.noConfusion

theorem expect {kind : TokenKind} (inside : kind ≠ .eof) (fault : Fault) :
    Avoids .exhausted (expect kind fault) :=
  accept (by simpa using Ne.symm inside) pure (reject fault)

/-! ## Expressions -/

/-- A chain of operands ends before the source does. -/
theorem continued {level : Level} (sourceEnd : level.accepts .eof = false) {operand : Parser Node}
    (orderly : Orderly operand) (advances : Advances operand)
    (avoids : Avoids .exhausted operand) (left : Node) :
    Avoids .exhausted (continued level operand left) := by
  intro cursor final ended run
  induction length : cursor.ahead.length using Nat.strongRecOn generalizing cursor left with
  | ind count inductionHypothesis =>
      rcases ended.exists_cons with ⟨token, rest, split⟩
      cases accepted : level.accepts token.kind with
      | false =>
          rw [continued_apply_none split accepted] at run
          cases run
      | true =>
          have inside : token.kind ≠ .eof := fun isEnd => by simp [isEnd, sourceEnd] at accepted
          have restEnded : Ended rest := Ended.tail (split ▸ ended) inside
          rw [continued_apply_some sourceEnd orderly advances split accepted restEnded,
            bind_apply] at run
          cases operandRun : operand (cursor.after token rest) with
          | error stop middle =>
              rw [operandRun] at run
              cases run
              exact avoids _ _ restEnded operandRun
          | ok right middle =>
              rw [operandRun] at run
              have shorter := advances _ right middle operandRun
              have fewer : middle.ahead.length < count := by
                rw [← length, split]
                exact Nat.lt_succ_of_lt shorter
              exact inductionHypothesis _ fewer _ middle
                ((orderly.leads operandRun).ended restEnded) run rfl

theorem operations {levels : List Level} (sourceEnd : ∀ level ∈ levels, level.accepts .eof = false)
    {operand : Parser Node} (orderly : Orderly operand) (advances : Advances operand)
    (avoids : Avoids .exhausted operand) : Avoids .exhausted (operations operand levels) := by
  induction levels with
  | nil => exact avoids
  | cons level tighter inductionHypothesis =>
      have inside : ∀ level ∈ tighter, level.accepts .eof = false := fun level member =>
        sourceEnd level (List.mem_cons_of_mem _ member)
      have tighterOrderly := Orderly.operations inside orderly
      exact bind tighterOrderly (inductionHypothesis inside)
        (continued (sourceEnd level List.mem_cons_self) tighterOrderly
          (Advances.operations inside orderly advances) (inductionHypothesis inside))

theorem assignmentRest {nested : Parser Node} (orderly : Orderly nested)
    (avoids : Avoids .exhausted nested) (target : Node) :
    Avoids .exhausted (assignmentRest nested target) :=
  after Orderly.get Succeeds.get fun cursor =>
    accept rfl
      (fun equal => bind orderly avoids fun value =>
        (Succeeds.assignTo target cursor.position equal value).avoids .exhausted)
      (pure target)

theorem groupRest {nested : Parser Node} (orderly : Orderly nested)
    (avoids : Avoids .exhausted nested) : Avoids .exhausted (groupRest nested) :=
  bind orderly avoids fun _ =>
    bind (Orderly.expect (by simp) _) (expect (by simp) _) fun _ => pure _

theorem atom {nested : Parser Node} (orderly : Orderly nested)
    (avoids : Avoids .exhausted nested) : Avoids .exhausted (atom nested) := by
  intro cursor final ended run
  rcases ended.exists_cons with ⟨token, rest, split⟩
  rcases atomStart_cases token with ⟨value, constant⟩ | name | opening | other
  · rw [atom_apply_literal split constant] at run
    cases run
  · rw [atom_apply_identifier split name] at run
    cases run
  · rw [atom_apply_group split opening] at run
    exact groupRest orderly avoids _ _ (Ended.tail (split ▸ ended) (by simp [opening])) run
  · rw [atom_apply_reject split other] at run
    exact reject .expression _ _ ended run

theorem operandOf {operand nested : Parser Node} (operandOrderly : Orderly operand)
    (operandAvoids : Avoids .exhausted operand) (nestedOrderly : Orderly nested)
    (nestedAvoids : Avoids .exhausted nested) : Avoids .exhausted (operandOf operand nested) :=
  accept rfl (fun _ => bind operandOrderly operandAvoids fun _ => pure _)
    (atom nestedOrderly nestedAvoids)

theorem expression_and_operand (levels : Nat) :
    Avoids .exhausted (expression levels) ∧ Avoids .exhausted (operand levels) := by
  induction levels with
  | zero => exact ⟨throw Stop.noConfusion, throw Stop.noConfusion⟩
  | succ levels inductionHypothesis =>
      rcases inductionHypothesis with ⟨expressionAvoids, operandAvoids⟩
      constructor
      · have sourceEnd : ∀ level ∈ Level.all, level.accepts .eof = false :=
          fun _ member => Level.accepts_eof member
        exact bind (Orderly.operations sourceEnd (Orderly.operand levels))
          (operations sourceEnd (Orderly.operand levels) (Advances.operand levels) operandAvoids)
          (assignmentRest (Orderly.expression levels) expressionAvoids)
      · exact operandOf (Orderly.operand levels) operandAvoids (Orderly.expression levels)
          expressionAvoids

theorem expression (levels : Nat) : Avoids .exhausted (expression levels) :=
  (expression_and_operand levels).1

/-! ## Statements -/

section Statements

variable {expr nested : Parser Node}

theorem sentence (sentence : Sentence) (node : Node) :
    Avoids .exhausted (do sentenceEnd sentence; return node) :=
  bind (Orderly.sentenceEnd sentence)
    (bind (Orderly.expect (by simp) _) (expect (by simp) _) fun _ => pure ()) fun _ => pure node

theorem condition (guarded : Guarded) (orderly : Orderly expr) (avoids : Avoids .exhausted expr) :
    Avoids .exhausted (condition guarded expr) :=
  bind (Orderly.expect (by simp) _) (expect (by simp) _) fun _ => bind orderly avoids fun _ =>
    bind (Orderly.expect (by simp) _) (expect (by simp) _) fun _ => pure _

theorem ifRest (exprOrderly : Orderly expr) (exprAvoids : Avoids .exhausted expr)
    (nestedOrderly : Orderly nested) (nestedAvoids : Avoids .exhausted nested) :
    Avoids .exhausted (ifRest expr nested) :=
  bind (Orderly.condition .branch exprOrderly) (condition .branch exprOrderly exprAvoids) fun _ =>
    bind nestedOrderly nestedAvoids fun _ =>
      accept rfl (fun _ => bind nestedOrderly nestedAvoids fun _ => pure _) (pure _)

theorem whileRest (exprOrderly : Orderly expr) (exprAvoids : Avoids .exhausted expr)
    (nestedOrderly : Orderly nested) (nestedAvoids : Avoids .exhausted nested) :
    Avoids .exhausted (whileRest expr nested) :=
  bind (Orderly.condition .loop exprOrderly) (condition .loop exprOrderly exprAvoids) fun _ =>
    bind nestedOrderly nestedAvoids fun _ => pure _

theorem varRest (orderly : Orderly expr) (avoids : Avoids .exhausted expr) :
    Avoids .exhausted (varRest expr) :=
  bind (Orderly.expect (by simp) _) (expect (by simp) _) fun _ =>
    accept rfl (fun _ => bind orderly avoids fun _ => sentence _ _) (sentence _ _)

theorem bareDeclaration (exprOrderly : Orderly expr) (exprAvoids : Avoids .exhausted expr)
    (nestedAvoids : Avoids .exhausted nested) : Avoids .exhausted (bareDeclaration expr nested) :=
  accept rfl (fun _ => varRest exprOrderly exprAvoids) nestedAvoids

/-- A rejection does not go beyond the declaration that meets it. -/
theorem recovering (orderly : Orderly parser) (avoids : stop ≠ .rejected → Avoids stop parser)
    (start : Nat) : Avoids stop (recovering start parser) := by
  intro cursor final ended run
  cases parserRun : parser cursor with
  | ok a middle =>
      rw [recovering_apply_ok parserRun] at run
      cases run
  | error other middle =>
      by_cases rejected : other = .rejected
      · subst rejected
        rw [recovering_apply_rejected parserRun] at run
        have leads := orderly cursor
        rw [parserRun] at leads
        exact after (Orderly.recover start) (Succeeds.recover start) (fun _ => pure none) _ _
          (leads.ended ended) run
      · rw [recovering_apply_error parserRun rejected] at run
        cases run
        exact avoids rejected _ _ ended parserRun

theorem declarationOf (exprOrderly : Orderly expr) (nestedOrderly : Orderly nested)
    (avoids : stop ≠ .rejected → Avoids stop (Grammar.bareDeclaration expr nested)) :
    Avoids stop (declarationOf expr nested) := by
  intro cursor
  rw [declarationOf_apply]
  exact recovering (Orderly.bareDeclaration exprOrderly nestedOrderly) avoids _ cursor

/-- A list of items ends before the source does. -/
theorem collectAll {ends : TokenKind → Bool} {item : Parser (Option α)}
    (orderly : Orderly item) (proceeds : Proceeds ends item) (avoids : Avoids stop item)
    (collected : List α) : Avoids stop (collectAll ends item collected) := by
  intro cursor final ended run
  induction length : cursor.ahead.length using Nat.strongRecOn generalizing cursor collected with
  | ind count inductionHypothesis =>
      rcases ended.exists_cons with ⟨token, rest, split⟩
      cases isEnd : ends token.kind with
      | true =>
          rw [collectAll_apply_ends split isEnd] at run
          cases run
      | false =>
          rw [collectAll_apply_item orderly proceeds split isEnd ended, bind_apply] at run
          cases itemRun : item cursor with
          | error _ middle =>
              rw [itemRun] at run
              cases run
              exact avoids _ _ ended itemRun
          | ok found middle =>
              rw [itemRun] at run
              have shorter := proceeds cursor token rest found middle split isEnd itemRun
              exact inductionHypothesis _ (length ▸ shorter) _ middle
                ((orderly.leads itemRun).ended ended) run rfl

theorem blockRest {item : Parser (Option Node)} (orderly : Orderly item)
    (proceeds : Proceeds endsBlock item) (avoids : Avoids .exhausted item) :
    Avoids .exhausted (blockRest item) :=
  after (Orderly.modifyOpenBlocks _) (Succeeds.modify _) fun _ =>
    bind (Orderly.many endsBlock orderly) (collectAll orderly proceeds avoids []) fun _ =>
      after (Orderly.modifyOpenBlocks _) (Succeeds.modify _) fun _ =>
        bind (Orderly.expect (by simp) _) (expect (by simp) _) fun _ => pure _

theorem statementOf (exprOrderly : Orderly expr) (exprAvoids : Avoids .exhausted expr)
    (nestedOrderly : Orderly nested) (nestedAvoids : Avoids .exhausted nested)
    (proceeds : Proceeds endsBlock (Grammar.declarationOf expr nested)) :
    Avoids .exhausted (statementOf expr nested) := by
  refine accept rfl (fun lead => ?_) (bind exprOrderly exprAvoids fun _ => sentence _ _)
  dsimp only
  split
  · exact bind exprOrderly exprAvoids fun _ => sentence _ _
  · exact ifRest exprOrderly exprAvoids nestedOrderly nestedAvoids
  · exact whileRest exprOrderly exprAvoids nestedOrderly nestedAvoids
  · exact blockRest (Orderly.declarationOf exprOrderly nestedOrderly) proceeds
      (declarationOf exprOrderly nestedOrderly fun _ =>
        bareDeclaration exprOrderly exprAvoids nestedAvoids)

end Statements

theorem statement (levels : Nat) : Avoids .exhausted (statement levels) := by
  induction levels with
  | zero => exact throw Stop.noConfusion
  | succ levels inductionHypothesis =>
      exact statementOf (Orderly.expression levels) (expression levels)
        (Orderly.statement levels) inductionHypothesis (proceeds_declaration rfl levels)

theorem declaration (levels : Nat) (notNested : stop ≠ .overNested) :
    Avoids stop (declaration levels) := by
  refine declarationOf (Orderly.expression levels) (Orderly.statement levels) fun notRejected => ?_
  cases stop with
  | rejected => contradiction
  | overNested => contradiction
  | exhausted =>
      exact bareDeclaration (Orderly.expression levels) (expression levels) (statement levels)

/-! ## Programs -/

/-- What is nested too deeply does not go beyond the declaration it is in. -/
theorem topDeclaration (levels : Nat) : Avoids stop (topDeclaration levels) := by
  intro cursor final ended run
  rw [topDeclaration_apply] at run
  cases declarationRun : Grammar.declaration levels cursor with
  | ok found middle =>
      rw [abandoning_apply_ok declarationRun] at run
      cases run
  | error other middle =>
      by_cases overNested : other = .overNested
      · subst overNested
        rw [abandoning_apply_overNested declarationRun] at run
        have leads := Orderly.declaration levels cursor
        rw [declarationRun] at leads
        exact after (Orderly.abandon _) (Succeeds.abandon _) (fun _ => pure none) _ _
          (leads.ended ended) run
      · rw [abandoning_apply_error declarationRun overNested] at run
        cases run
        exact declaration levels overNested _ _ ended declarationRun

end Avoids

/-- Parsing a token list with an end comes to a result. -/
theorem succeeds_program (levels : Nat) : Succeeds (program levels) :=
  .of_avoids fun _ => Avoids.collectAll (Orderly.topDeclaration levels)
    (proceeds_topDeclaration levels) (Avoids.topDeclaration levels) []

end TreeWalker.Grammar
