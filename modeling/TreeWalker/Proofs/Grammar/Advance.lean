import TreeWalker.Proofs.Grammar.Progress

/-!
# The parsers of the grammar move forward

Every rule of the grammar is orderly, recovery included, and the rules for
operands, expressions and statements advance.  A declaration that is rejected
advances as well, unless it stands at the end of the source: recovery skips the
token that was rejected if the declaration has taken none.
-/

namespace TreeWalker.Grammar

variable {α : Type}

/-! ## Expressions -/

/-- No level has an operator that ends the source. -/
theorem Level.accepts_eof {level : Level} (member : level ∈ Level.all) :
    level.accepts .eof = false := by
  revert level
  simp [Level.all, Level.accepts]

/-- What follows the parenthesis that opens a group. -/
def groupRest (nested : Parser Node) : Parser Node := do
  let inner ← nested
  let _ ← expect (.symbol .rightParen) .groupClosing
  return .grouping inner

/-- What follows the operation that may be the target of an assignment. -/
def assignmentRest (nested : Parser Node) (target : Node) : Parser Node := do
  let position := (← get).position
  match ← accept? (· == .symbol .equal) with
  | some equal =>
    let value ← nested
    assignTo target position equal value
  | none => return target

theorem expressionOf_eq (operand nested : Parser Node) :
    expressionOf operand nested = operations operand Level.all >>= assignmentRest nested :=
  rfl

/-- No operand begins at a token of these kinds, apart from operators. -/
def startsNoAtom (token : Token) : Prop :=
  literalValue? token = none ∧ token.kind ≠ .identifier ∧ token.kind ≠ .symbol .leftParen

/-- How an operand without an operator may begin. -/
theorem atomStart_cases (token : Token) :
    (∃ value, literalValue? token = some value) ∨ token.kind = .identifier ∨
      token.kind = .symbol .leftParen ∨ startsNoAtom token := by
  by_cases name : token.kind = .identifier
  · exact Or.inr (Or.inl name)
  · by_cases opening : token.kind = .symbol .leftParen
    · exact Or.inr (Or.inr (Or.inl opening))
    · cases constant : literalValue? token with
      | some value => exact Or.inl ⟨value, rfl⟩
      | none => exact Or.inr (Or.inr (Or.inr ⟨constant, name, opening⟩))

section Atoms

variable {nested : Parser Node} {cursor : Cursor} {token : Token} {rest : List Token}

theorem atom_apply_nil (split : cursor.ahead = []) :
    atom nested cursor = .error .exhausted cursor :=
  bind_apply_error (nextToken_apply_nil split)

theorem atom_apply_literal {value : Value} (split : cursor.ahead = token :: rest)
    (constant : literalValue? token = some value) :
    atom nested cursor = .ok (.literal value) (cursor.after token rest) := by
  rw [atom, bind_apply_ok (nextToken_apply split)]
  simp only [constant]
  rw [bind_apply_ok (passToken_apply split)]
  rfl

theorem atom_apply_identifier (split : cursor.ahead = token :: rest)
    (name : token.kind = .identifier) :
    atom nested cursor = .ok (.reference token) (cursor.after token rest) := by
  rw [atom, bind_apply_ok (nextToken_apply split)]
  simp only [literalValue?, name]
  rw [bind_apply_ok (passToken_apply split)]
  rfl

theorem atom_apply_group (split : cursor.ahead = token :: rest)
    (opening : token.kind = .symbol .leftParen) :
    atom nested cursor = groupRest nested (cursor.after token rest) := by
  rw [atom, bind_apply_ok (nextToken_apply split)]
  simp only [literalValue?, opening]
  rw [bind_apply_ok (passToken_apply split)]
  rfl

theorem atom_apply_reject (split : cursor.ahead = token :: rest) (other : startsNoAtom token) :
    atom nested cursor = reject .expression cursor := by
  rcases other with ⟨constant, name, opening⟩
  rw [atom, bind_apply_ok (nextToken_apply split)]
  simp only [constant]

theorem assignmentRest_apply_nil {target : Node} (split : cursor.ahead = []) :
    assignmentRest nested target cursor = .error .exhausted cursor := by
  rw [assignmentRest, get_bind_apply]
  exact bind_apply_error (accept?_apply_nil split)

theorem assignmentRest_apply_equal {target : Node} (split : cursor.ahead = token :: rest)
    (isEqual : token.kind = .symbol .equal) :
    assignmentRest nested target cursor =
      (nested >>= fun value => assignTo target cursor.position token value)
        (cursor.after token rest) := by
  rw [assignmentRest, get_bind_apply,
    bind_apply_ok (accept?_apply_some split (by simp [isEqual]))]

theorem assignmentRest_apply_other {target : Node} (split : cursor.ahead = token :: rest)
    (other : token.kind ≠ .symbol .equal) :
    assignmentRest nested target cursor = .ok target cursor := by
  rw [assignmentRest, get_bind_apply,
    bind_apply_ok (accept?_apply_none split (by simp [other]))]
  rfl

end Atoms

namespace Orderly

theorem chain {level : Level} (sourceEnd : level.accepts .eof = false) {operand : Parser Node}
    (orderly : Orderly operand) (fuel : Nat) (left : Node) (operator : Token) :
    Orderly (chain level operand fuel left operator) := by
  induction fuel generalizing left operator with
  | zero => exact throw .exhausted
  | succ fuel inductionHypothesis =>
      refine orderly.bind fun right => (accept? sourceEnd).bind fun found => ?_
      cases found with
      | none => exact pure _
      | some next => exact inductionHypothesis _ next

theorem leftAssociative {level : Level} (sourceEnd : level.accepts .eof = false)
    {operand : Parser Node} (orderly : Orderly operand) :
    Orderly (leftAssociative level operand) := by
  refine orderly.bind fun left => (accept? sourceEnd).bind fun found => ?_
  cases found with
  | none => exact pure _
  | some operator => exact get.bind fun cursor => chain sourceEnd orderly _ _ _

theorem operations {levels : List Level} (sourceEnd : ∀ level ∈ levels, level.accepts .eof = false)
    {operand : Parser Node} (orderly : Orderly operand) : Orderly (operations operand levels) := by
  induction levels with
  | nil => exact orderly
  | cons level tighter inductionHypothesis =>
      exact leftAssociative (sourceEnd level List.mem_cons_self)
        (inductionHypothesis fun level member =>
          sourceEnd level (List.mem_cons_of_mem _ member))

theorem assignTo (target : Node) (position : Nat) (equal : Token) (value : Node) :
    Orderly (assignTo target position equal value) := by
  cases target
  case reference name => exact pure _
  all_goals exact (note position equal .assignmentTarget).bind fun _ => pure _

theorem assignmentRest {nested : Parser Node} (orderly : Orderly nested) (target : Node) :
    Orderly (assignmentRest nested target) := by
  refine get.bind fun cursor => (accept? rfl).bind fun found => ?_
  cases found with
  | none => exact pure _
  | some equal => exact orderly.bind fun value => assignTo target _ equal value

theorem expressionOf {operand nested : Parser Node} (operandOrderly : Orderly operand)
    (nestedOrderly : Orderly nested) : Orderly (expressionOf operand nested) :=
  (operations (fun _ member => Level.accepts_eof member) operandOrderly).bind
    (assignmentRest nestedOrderly)

theorem groupRest {nested : Parser Node} (orderly : Orderly nested) :
    Orderly (groupRest nested) :=
  orderly.bind fun _ => (expect (by simp) .groupClosing).bind fun _ => pure _

theorem atom {nested : Parser Node} (orderly : Orderly nested) : Orderly (atom nested) := by
  intro cursor
  cases split : cursor.ahead with
  | nil =>
      rw [atom_apply_nil split]
      exact Cursor.Leads.refl cursor
  | cons token rest =>
      rcases atomStart_cases token with ⟨value, constant⟩ | name | opening | other
      · rw [atom_apply_literal split constant]
        exact Cursor.leads_after split (fun isEnd => by simp [literalValue?, isEnd] at constant)
      · rw [atom_apply_identifier split name]
        exact Cursor.leads_after split (by simp [name])
      · rw [atom_apply_group split opening]
        exact (Cursor.leads_after split (by simp [opening])).trans (groupRest orderly _)
      · rw [atom_apply_reject split other]
        exact reject .expression cursor

theorem operandOf {operand nested : Parser Node} (operandOrderly : Orderly operand)
    (nestedOrderly : Orderly nested) : Orderly (operandOf operand nested) := by
  refine (accept? rfl).bind fun found => ?_
  cases found with
  | none => exact atom nestedOrderly
  | some operator => exact operandOrderly.bind fun _ => pure _

theorem expression_and_operand (levels : Nat) :
    Orderly (expression levels) ∧ Orderly (operand levels) := by
  induction levels with
  | zero => exact ⟨throw .overNested, throw .overNested⟩
  | succ levels inductionHypothesis =>
      rcases inductionHypothesis with ⟨expression, operand⟩
      exact ⟨expressionOf operand expression, operandOf operand expression⟩

theorem expression (levels : Nat) : Orderly (expression levels) :=
  (expression_and_operand levels).1

theorem operand (levels : Nat) : Orderly (operand levels) :=
  (expression_and_operand levels).2

end Orderly

namespace Advances

theorem accept?_some {accepts : TokenKind → Bool} {cursor after : Cursor} {token : Token}
    (run : accept? accepts cursor = .ok (some token) after) :
    after.ahead.length < cursor.ahead.length := by
  cases split : cursor.ahead with
  | nil =>
      rw [accept?_apply_nil split] at run
      cases run
  | cons next rest =>
      cases accepted : accepts next.kind with
      | false =>
          rw [accept?_apply_none split accepted] at run
          cases run
      | true =>
          rw [accept?_apply_some split accepted] at run
          cases run
          simp [Cursor.after]

theorem leftAssociative {level : Level} (sourceEnd : level.accepts .eof = false)
    {operand : Parser Node} (orderly : Orderly operand) (advances : Advances operand) :
    Advances (leftAssociative level operand) := by
  refine advances.bind fun left => (Orderly.accept? sourceEnd).bind fun found => ?_
  cases found with
  | none => exact Orderly.pure _
  | some operator =>
      exact Orderly.get.bind fun cursor => Orderly.chain sourceEnd orderly _ _ _

theorem operations {levels : List Level} (sourceEnd : ∀ level ∈ levels, level.accepts .eof = false)
    {operand : Parser Node} (orderly : Orderly operand) (advances : Advances operand) :
    Advances (operations operand levels) := by
  induction levels with
  | nil => exact advances
  | cons level tighter inductionHypothesis =>
      have inside : ∀ level ∈ tighter, level.accepts .eof = false := fun level member =>
        sourceEnd level (List.mem_cons_of_mem _ member)
      exact leftAssociative (sourceEnd level List.mem_cons_self)
        (Orderly.operations inside orderly) (inductionHypothesis inside)

theorem atom {nested : Parser Node} (orderly : Orderly nested) : Advances (atom nested) := by
  intro cursor node final run
  cases split : cursor.ahead with
  | nil =>
      rw [atom_apply_nil split] at run
      cases run
  | cons token rest =>
      rcases atomStart_cases token with ⟨value, constant⟩ | name | opening | other
      · rw [atom_apply_literal split constant] at run
        cases run
        simp [Cursor.after]
      · rw [atom_apply_identifier split name] at run
        cases run
        simp [Cursor.after]
      · rw [atom_apply_group split opening] at run
        have shorter := ((Orderly.groupRest orderly).leads run).length_le
        simp only [Cursor.after] at shorter
        simp only [List.length_cons]
        omega
      · rw [atom_apply_reject split other] at run
        exact absurd run (reject_ne_ok _ node final)

theorem operandOf {operand nested : Parser Node} (operandOrderly : Orderly operand)
    (nestedOrderly : Orderly nested) : Advances (operandOf operand nested) := by
  intro cursor node final run
  obtain ⟨found, middle, acceptRun, run⟩ := bind_eq_ok_iff.mp run
  have leads := ((Orderly.accept? rfl).leads acceptRun).length_le
  cases found with
  | none =>
      have shorter := atom nestedOrderly middle node final run
      omega
  | some operator =>
      have shorter := accept?_some acceptRun
      have rest := ((operandOrderly.bind fun _ => Orderly.pure _).leads run).length_le
      omega

theorem operand (levels : Nat) : Advances (operand levels) := by
  cases levels with
  | zero =>
      intro cursor node final run
      cases run
  | succ levels => exact operandOf (Orderly.operand levels) (Orderly.expression levels)

theorem expression (levels : Nat) : Advances (expression levels) := by
  cases levels with
  | zero =>
      intro cursor node final run
      cases run
  | succ levels =>
      exact (operations (fun _ member => Level.accepts_eof member) (Orderly.operand levels)
        (operand levels)).bind (Orderly.assignmentRest (Orderly.expression levels))

end Advances

/-! ## Recovery -/

section Recovery

variable {cursor : Cursor} {token : Token} {rest : List Token}

theorem atBoundary_eof (cursor : Cursor) : atBoundary cursor .eof = true := by
  simp [atBoundary]

/-- What is no boundary does not end the source. -/
theorem ne_eof_of_not_atBoundary (beyond : ¬ atBoundary cursor token.kind = true) :
    token.kind ≠ .eof :=
  fun isEnd => beyond (isEnd ▸ atBoundary_eof cursor)

theorem skipToBoundary_apply_boundary (boundary : atBoundary cursor token.kind = true)
    (rest : List Token) : skipToBoundary (token :: rest) cursor = .ok () cursor := by
  rw [skipToBoundary, get_bind_apply, if_pos boundary]
  rfl

theorem skipToBoundary_apply_other (split : cursor.ahead = token :: rest)
    (beyond : ¬ atBoundary cursor token.kind = true) :
    skipToBoundary (token :: rest) cursor = skipToBoundary rest (cursor.after token rest) := by
  rw [skipToBoundary, get_bind_apply, if_neg beyond, bind_apply_ok (passToken_apply split)]

theorem recover_apply_nil (split : cursor.ahead = []) (start : Nat) :
    recover start cursor = .error .exhausted cursor :=
  bind_apply_error (nextToken_apply_nil split)

theorem recover_apply (split : cursor.ahead = token :: rest) (start : Nat) :
    recover start cursor =
      if cursor.position == start && token.kind != .eof then
        skipToBoundary rest (cursor.after token rest)
      else skipToBoundary (token :: rest) cursor := by
  rw [recover, bind_apply_ok (nextToken_apply split), get_bind_apply]
  dsimp only
  by_cases skips : (cursor.position == start && token.kind != .eof) = true
  · rw [if_pos skips, if_pos skips, bind_apply_ok (passToken_apply split)]
    rfl
  · rw [if_neg skips, if_neg skips, ← split]
    rfl

theorem recover_apply_stuck (split : cursor.ahead = token :: rest) (inside : token.kind ≠ .eof) :
    recover cursor.position cursor = skipToBoundary rest (cursor.after token rest) := by
  rw [recover_apply split, if_pos (by simp [inside])]

theorem recover_apply_moved {start : Nat} (split : cursor.ahead = token :: rest)
    (moved : cursor.position ≠ start) :
    recover start cursor = skipToBoundary (token :: rest) cursor := by
  rw [recover_apply split, if_neg (by simp [moved])]

/-- At the end of the source recovery does not move. -/
theorem recover_apply_end (split : cursor.ahead = token :: rest) (isEnd : token.kind = .eof)
    (start : Nat) : recover start cursor = .ok () cursor := by
  rw [recover_apply split, if_neg (by simp [isEnd]),
    skipToBoundary_apply_boundary (isEnd ▸ atBoundary_eof cursor)]

end Recovery

section Guards

variable {parser : Parser α} {start : Nat} {cursor after : Cursor}

theorem recovering_apply_ok {a : α} (run : parser cursor = .ok a after) :
    recovering start parser cursor = .ok (some a) after := by
  simp [recovering, run]

theorem recovering_apply_rejected (run : parser cursor = .error .rejected after) :
    recovering start parser cursor = (recover start >>= fun _ => pure none) after := by
  rw [← seqRight_eq_bind]
  simp only [recovering, run]

theorem recovering_apply_error {stop : Stop} (run : parser cursor = .error stop after)
    (other : stop ≠ .rejected) : recovering start parser cursor = .error stop after := by
  cases stop with
  | rejected => contradiction
  | overNested => simp [recovering, run]
  | exhausted => simp [recovering, run]

theorem abandoning_apply_ok {parser : Parser (Option α)} {found : Option α}
    (run : parser cursor = .ok found after) :
    abandoning start parser cursor = .ok found after := by
  simp [abandoning, run]

theorem abandoning_apply_overNested {parser : Parser (Option α)}
    (run : parser cursor = .error .overNested after) :
    abandoning start parser cursor = (abandon start >>= fun _ => pure none) after := by
  rw [← seqRight_eq_bind]
  simp only [abandoning, run]

theorem abandoning_apply_error {parser : Parser (Option α)} {stop : Stop}
    (run : parser cursor = .error stop after) (other : stop ≠ .overNested) :
    abandoning start parser cursor = .error stop after := by
  cases stop with
  | rejected => simp [abandoning, run]
  | overNested => contradiction
  | exhausted => simp [abandoning, run]

end Guards

/-- What follows the first branch of an `if`. -/
def elseRest (nested : Parser Node) (condition thenBranch : Node) : Parser Node := do
  match ← accept? (· == .keyword .kwElse) with
  | some _ =>
    let elseBranch ← nested
    return .ifStmt condition thenBranch elseBranch
  | none => return .ifStmt condition thenBranch .absent

theorem ifRest_eq (expr nested : Parser Node) :
    ifRest expr nested = condition .branch expr >>= fun condition =>
      nested >>= fun thenBranch => elseRest nested condition thenBranch :=
  rfl

/-- A declaration or statement, without recovery. -/
def bareDeclaration (expr statement : Parser Node) : Parser Node := do
  match ← accept? (· == .keyword .kwVar) with
  | some _ => varRest expr
  | none => statement

theorem declarationOf_apply (expr statement : Parser Node) (cursor : Cursor) :
    declarationOf expr statement cursor =
      recovering cursor.position (bareDeclaration expr statement) cursor :=
  rfl

theorem topDeclaration_apply (levels : Nat) (cursor : Cursor) :
    topDeclaration levels cursor = abandoning cursor.position (declaration levels) cursor :=
  rfl

namespace Orderly

theorem skipToBoundary {cursor : Cursor} {tokens : List Token} (ahead : cursor.ahead = tokens) :
    cursor.Leads (cursorOf (skipToBoundary tokens cursor)) := by
  induction tokens generalizing cursor with
  | nil => exact Cursor.Leads.refl cursor
  | cons token rest inductionHypothesis =>
      by_cases boundary : atBoundary cursor token.kind = true
      · rw [skipToBoundary_apply_boundary boundary]
        exact Cursor.Leads.refl cursor
      · rw [skipToBoundary_apply_other ahead boundary]
        exact (Cursor.leads_after ahead (ne_eof_of_not_atBoundary boundary)).trans
          (inductionHypothesis rfl)

theorem recover (start : Nat) : Orderly (recover start) := by
  intro cursor
  cases split : cursor.ahead with
  | nil =>
      rw [recover_apply_nil split]
      exact Cursor.Leads.refl cursor
  | cons token rest =>
      rw [recover_apply split]
      split
      · rename_i skips
        have inside : token.kind ≠ .eof := by
          simp only [Bool.and_eq_true, bne_iff_ne, ne_eq] at skips
          exact skips.2
        exact (Cursor.leads_after split inside).trans (skipToBoundary rfl)
      · exact skipToBoundary split

theorem recovering {parser : Parser α} (orderly : Orderly parser) (start : Nat) :
    Orderly (recovering start parser) := by
  intro cursor
  have leads := orderly cursor
  cases run : parser cursor with
  | ok a after =>
      rw [run] at leads
      rw [recovering_apply_ok run]
      exact leads
  | error stop after =>
      rw [run] at leads
      by_cases rejected : stop = .rejected
      · subst rejected
        rw [recovering_apply_rejected run]
        exact leads.trans (((recover start).bind fun _ => pure none) after)
      · rw [recovering_apply_error run rejected]
        exact leads

/-! ## Statements -/

theorem sentenceEnd (sentence : Sentence) : Orderly (sentenceEnd sentence) :=
  (expect (by simp) _).bind fun _ => pure ()

theorem condition (guarded : Guarded) {expr : Parser Node} (orderly : Orderly expr) :
    Orderly (condition guarded expr) :=
  (expect (by simp) _).bind fun _ => orderly.bind fun _ =>
    (expect (by simp) _).bind fun _ => pure _

theorem printRest {expr : Parser Node} (orderly : Orderly expr) : Orderly (printRest expr) :=
  orderly.bind fun _ => (sentenceEnd .value).bind fun _ => pure _

theorem elseRest {nested : Parser Node} (orderly : Orderly nested) (condition thenBranch : Node) :
    Orderly (elseRest nested condition thenBranch) := by
  refine (accept? rfl).bind fun found => ?_
  cases found with
  | none => exact pure _
  | some _ => exact orderly.bind fun _ => pure _

theorem ifRest {expr nested : Parser Node} (exprOrderly : Orderly expr)
    (nestedOrderly : Orderly nested) : Orderly (ifRest expr nested) :=
  (condition .branch exprOrderly).bind fun _ => nestedOrderly.bind fun _ =>
    elseRest nestedOrderly _ _

theorem whileRest {expr nested : Parser Node} (exprOrderly : Orderly expr)
    (nestedOrderly : Orderly nested) : Orderly (whileRest expr nested) :=
  (condition .loop exprOrderly).bind fun _ => nestedOrderly.bind fun _ => pure _

theorem varRest {expr : Parser Node} (orderly : Orderly expr) : Orderly (varRest expr) := by
  refine (expect (by simp) _).bind fun name => (accept? rfl).bind fun found => ?_
  cases found with
  | none => exact (sentenceEnd .declaration).bind fun _ => pure _
  | some _ => exact orderly.bind fun _ => (sentenceEnd .declaration).bind fun _ => pure _

theorem exprSentence {expr : Parser Node} (orderly : Orderly expr) :
    Orderly (exprSentence expr) :=
  orderly.bind fun _ => (sentenceEnd .expression).bind fun _ => pure _

theorem bareDeclaration {expr nested : Parser Node} (exprOrderly : Orderly expr)
    (nestedOrderly : Orderly nested) : Orderly (bareDeclaration expr nested) := by
  refine (accept? rfl).bind fun found => ?_
  cases found with
  | none => exact nestedOrderly
  | some _ => exact varRest exprOrderly

theorem declarationOf {expr nested : Parser Node} (exprOrderly : Orderly expr)
    (nestedOrderly : Orderly nested) : Orderly (declarationOf expr nested) := by
  intro cursor
  rw [declarationOf_apply]
  exact recovering (bareDeclaration exprOrderly nestedOrderly) _ cursor

theorem collect (ends : TokenKind → Bool) {item : Parser (Option α)} (orderly : Orderly item)
    (fuel : Nat) (collected : List α) : Orderly (collect ends item fuel collected) := by
  induction fuel generalizing collected with
  | zero =>
      rw [Grammar.collect]
      refine nextToken.bind fun token => ?_
      split
      · exact pure _
      · exact throw .exhausted
  | succ fuel inductionHypothesis =>
      rw [Grammar.collect]
      refine nextToken.bind fun token => ?_
      split
      · exact pure _
      · refine orderly.bind fun found => ?_
        cases found with
        | none => exact inductionHypothesis collected
        | some a => exact inductionHypothesis (a :: collected)

theorem many (ends : TokenKind → Bool) {item : Parser (Option α)} (orderly : Orderly item) :
    Orderly (many ends item) :=
  get.bind fun _ => collect ends orderly _ []

theorem blockRest {item : Parser (Option Node)} (orderly : Orderly item) :
    Orderly (blockRest item) :=
  (modifyOpenBlocks _).bind fun _ => (many endsBlock orderly).bind fun _ =>
    (modifyOpenBlocks _).bind fun _ => (expect (by simp) _).bind fun _ => pure _

theorem statementOf {expr nested : Parser Node} (exprOrderly : Orderly expr)
    (nestedOrderly : Orderly nested) : Orderly (statementOf expr nested) := by
  refine (accept? rfl).bind fun found => ?_
  cases found with
  | none => exact exprSentence exprOrderly
  | some lead =>
      dsimp only
      split
      · exact printRest exprOrderly
      · exact ifRest exprOrderly nestedOrderly
      · exact whileRest exprOrderly nestedOrderly
      · exact blockRest (declarationOf exprOrderly nestedOrderly)

theorem statement (levels : Nat) : Orderly (statement levels) := by
  induction levels with
  | zero => exact throw .overNested
  | succ levels inductionHypothesis => exact statementOf (expression levels) inductionHypothesis

theorem declaration (levels : Nat) : Orderly (declaration levels) :=
  declarationOf (expression levels) (statement levels)

/-! ## Programs -/

theorem abandon (start : Nat) : Orderly (abandon start) :=
  (noteNext .nesting).bind fun _ => (modifyOpenBlocks _).bind fun _ => recover start

theorem abandoning {parser : Parser (Option α)} (orderly : Orderly parser) (start : Nat) :
    Orderly (abandoning start parser) := by
  intro cursor
  have leads := orderly cursor
  cases run : parser cursor with
  | ok found after =>
      rw [run] at leads
      rw [abandoning_apply_ok run]
      exact leads
  | error stop after =>
      rw [run] at leads
      by_cases overNested : stop = .overNested
      · subst overNested
        rw [abandoning_apply_overNested run]
        exact leads.trans (((abandon start).bind fun _ => pure none) after)
      · rw [abandoning_apply_error run overNested]
        exact leads

theorem topDeclaration (levels : Nat) : Orderly (topDeclaration levels) :=
  get.bind fun _ => abandoning (declaration levels) _

theorem program (levels : Nat) : Orderly (program levels) :=
  many endsSource (topDeclaration levels)

end Orderly

/-! ## Statements take a token -/

namespace Advances

theorem expect {kind : TokenKind} (fault : Fault) : Advances (expect kind fault) := by
  intro cursor token after run
  obtain ⟨found, middle, acceptRun, run⟩ := bind_eq_ok_iff.mp run
  cases found with
  | none =>
      exact absurd run (reject_ne_ok fault token after)
  | some token =>
      cases run
      exact accept?_some acceptRun

theorem statementOf {expr nested : Parser Node} (exprOrderly : Orderly expr)
    (advances : Advances expr) (nestedOrderly : Orderly nested) :
    Advances (statementOf expr nested) := by
  intro cursor node final run
  rcases bind_eq_ok_iff.mp run with ⟨found, middle, acceptRun, run⟩
  have leads := ((Orderly.accept? rfl).leads acceptRun).length_le
  cases found with
  | none =>
      have shorter := (advances.bind fun _ => (Orderly.sentenceEnd .expression).bind fun _ =>
        Orderly.pure _) middle node final run
      omega
  | some lead =>
      have shorter := accept?_some acceptRun
      obtain ⟨rest, orderly, restRun⟩ : ∃ rest : Parser Node, Orderly rest ∧
          rest middle = .ok node final := by
        refine ⟨_, ?_, run⟩
        dsimp only
        split
        · exact Orderly.printRest exprOrderly
        · exact Orderly.ifRest exprOrderly nestedOrderly
        · exact Orderly.whileRest exprOrderly nestedOrderly
        · exact Orderly.blockRest (Orderly.declarationOf exprOrderly nestedOrderly)
      have notLonger := (orderly.leads restRun).length_le
      omega

theorem varRest {expr : Parser Node} (orderly : Orderly expr) : Advances (varRest expr) := by
  refine (expect _).bind fun name => (Orderly.accept? rfl).bind fun found => ?_
  cases found with
  | none => exact (Orderly.sentenceEnd .declaration).bind fun _ => Orderly.pure _
  | some _ =>
      exact orderly.bind fun _ => (Orderly.sentenceEnd .declaration).bind fun _ => Orderly.pure _

theorem bareDeclaration {expr nested : Parser Node} (exprOrderly : Orderly expr)
    (nestedAdvances : Advances nested) : Advances (bareDeclaration expr nested) := by
  refine bind_right (Orderly.accept? rfl) fun found => ?_
  cases found with
  | none => exact nestedAdvances
  | some _ => exact varRest exprOrderly

theorem statement (levels : Nat) : Advances (statement levels) := by
  cases levels with
  | zero =>
      intro cursor node final run
      cases run
  | succ levels =>
      exact statementOf (Orderly.expression levels) (expression levels) (Orderly.statement levels)

end Advances

end TreeWalker.Grammar
