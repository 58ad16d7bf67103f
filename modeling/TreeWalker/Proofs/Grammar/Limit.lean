import TreeWalker.Proofs.Grammar.Correctness

/-!
# Fewer levels of nesting

What is taken without a report when nesting may be deep is taken in the same way
when it may not be as deep, or else the parser is stopped on the way.  It has
noted nothing then, and a token of what would have been taken is still ahead.
-/

namespace TreeWalker.Grammar

variable {α β : Type}

/-- On the way between cursors that have noted the same, nothing is noted. -/
theorem Cursor.Leads.quiet {cursor middle final : Cursor} (first : cursor.Leads middle)
    (second : middle.Leads final) (quiet : final.errors = cursor.errors) :
    middle.errors = cursor.errors ∧ final.errors = middle.errors := by
  obtain ⟨errors, noted⟩ := first.notes
  rcases second.notes with ⟨errors', noted'⟩
  rw [noted', noted, List.append_assoc] at quiet
  have nothing : errors ++ errors' = [] :=
    List.append_cancel_left (quiet.trans (List.append_nil _).symm)
  obtain ⟨rfl, rfl⟩ := List.append_eq_nil_iff.mp nothing
  rw [List.append_nil] at noted noted'
  exact ⟨noted, noted'⟩

/-- No derivation goes beyond the end of the source. -/
theorem Body.inside {nodes : List Node} {word strays : List Token}
    (body : Body nodes word strays) : ∀ token ∈ word, token.kind ≠ .eof := by
  have isEnd : (blankToken .eof).kind = .eof := rfl
  obtain ⟨depth, settles, _⟩ := body.settled
  have settled := settles depth [blankToken .eof] (ended_singleton isEnd) (ending_singleton isEnd)
  obtain ⟨after, run, past⟩ := settled.takes (Nat.le_refl depth) (Cursor.atStart _) rfl
  obtain ⟨passed, split, _, inside⟩ := ((Orderly.program depth).leads run).passes
  rw [past.ahead] at split
  rwa [List.append_cancel_right split]

theorem Clause.inside {node : Node} {word strays : List Token}
    (clause : Clause .declaration node word strays) : ∀ token ∈ word, token.kind ≠ .eof := by
  have body : Body [node] (word ++ []) (strays ++ []) := .item clause .empty
  rw [List.append_nil] at body
  exact body.inside

/-- Where the second parser succeeds without a report, the first does the same or
is stopped by the limit before it has taken as much. -/
structure Curtails (shallow deep : Parser α) : Prop where
  orderly : Orderly deep
  stops : ∀ cursor a final, Ended cursor.ahead → deep cursor = .ok a final →
    final.errors = cursor.errors →
    shallow cursor = .ok a final ∨
      ∃ after, shallow cursor = .error .overNested after ∧ after.Leads final ∧
        final.ahead.length < after.ahead.length

namespace Curtails

variable {shallow deep : Parser α}

/-- A parser that knows no levels. -/
theorem refl {parser : Parser α} (orderly : Orderly parser) : Curtails parser parser :=
  ⟨orderly, fun _ _ _ _ run _ => Or.inl run⟩

theorem pure (a : α) : Curtails (Pure.pure a : Parser α) (Pure.pure a) :=
  refl (Orderly.pure a)

/-- No level at all stops what takes a token. -/
theorem overNested (orderly : Orderly deep) (advances : Advances deep) :
    Curtails (throw .overNested) deep :=
  ⟨orderly, fun cursor a final _ run _ =>
    Or.inr ⟨cursor, rfl, orderly.leads run, advances cursor a final run⟩⟩

theorem bind {next next' : α → Parser β} (first : Curtails shallow deep)
    (second : ∀ a, Curtails (next a) (next' a)) :
    Curtails (shallow >>= next) (deep >>= next') := by
  refine ⟨first.orderly.bind fun a => (second a).orderly, fun cursor b final ended run quiet => ?_⟩
  rcases bind_eq_ok_iff.mp run with ⟨a, middle, firstRun, secondRun⟩
  have leads := first.orderly.leads firstRun
  have leadsOn := (second a).orderly.leads secondRun
  obtain ⟨quietFirst, quietSecond⟩ := leads.quiet leadsOn quiet
  rcases first.stops cursor a middle ended firstRun quietFirst with
    same | ⟨after, stopped, leadsMiddle, before⟩
  · rw [bind_apply_ok same]
    exact (second a).stops middle b final (leads.ended ended) secondRun quietSecond
  · have further := leadsOn.length_le
    exact Or.inr ⟨after, bind_apply_error stopped, leadsMiddle.trans leadsOn, by omega⟩

/-- A parser after one that knows no levels. -/
theorem after {parser : Parser α} {next next' : α → Parser β} (orderly : Orderly parser)
    (second : ∀ a, Curtails (next a) (next' a)) : Curtails (parser >>= next) (parser >>= next') :=
  (refl orderly).bind second

/-- What comes of a token that may be there. -/
theorem accept {accepts : TokenKind → Bool} (sourceEnd : accepts .eof = false)
    {next next' : Option Token → Parser β}
    (found : ∀ token, Curtails (next (some token)) (next' (some token)))
    (missing : Curtails (next none) (next' none)) :
    Curtails (accept? accepts >>= next) (accept? accepts >>= next') :=
  after (Orderly.accept? sourceEnd) fun
    | none => missing
    | some token => found token

/-! ## Expressions -/

section Expressions

variable {operand operand' nested nested' : Parser Node}

theorem chain {level : Level} (sourceEnd : level.accepts .eof = false)
    (operands : Curtails operand operand') (fuel : Nat) (left : Node) (operator : Token) :
    Curtails (chain level operand fuel left operator)
      (chain level operand' fuel left operator) := by
  induction fuel generalizing left operator with
  | zero => exact refl (Orderly.throw .exhausted)
  | succ fuel inductionHypothesis =>
      exact operands.bind fun right => accept sourceEnd (inductionHypothesis _) (pure _)

theorem operations {levels : List Level} (sourceEnd : ∀ level ∈ levels, level.accepts .eof = false)
    (operands : Curtails operand operand') :
    Curtails (operations operand levels) (operations operand' levels) := by
  induction levels with
  | nil => exact operands
  | cons level tighter inductionHypothesis =>
      have noEnd := sourceEnd level List.mem_cons_self
      have inner := inductionHypothesis fun other member =>
        sourceEnd other (List.mem_cons_of_mem _ member)
      exact inner.bind fun left => accept noEnd
        (fun operator => after Orderly.get fun cursor => chain noEnd inner _ left operator)
        (pure left)

theorem groupRest (inner : Curtails nested nested') :
    Curtails (groupRest nested) (groupRest nested') :=
  inner.bind fun _ => after (Orderly.expect (by simp) _) fun _ => pure _

theorem atom (inner : Curtails nested nested') : Curtails (atom nested) (atom nested') := by
  refine ⟨Orderly.atom inner.orderly, fun cursor node final ended run quiet => ?_⟩
  rcases ended.exists_cons with ⟨token, rest, split⟩
  rcases atomStart_cases token with ⟨value, constant⟩ | name | opening | other
  · rw [atom_apply_literal split constant] at run ⊢
    exact Or.inl run
  · rw [atom_apply_identifier split name] at run ⊢
    exact Or.inl run
  · rw [atom_apply_group split opening] at run ⊢
    have restEnded : Ended rest := Ended.tail (split ▸ ended) (by simp [opening])
    exact (groupRest inner).stops (cursor.after token rest) node final restEnded run quiet
  · rw [atom_apply_reject split other] at run
    exact absurd run (reject_ne_ok _ node final)

theorem expressionOf (operands : Curtails operand operand') (inner : Curtails nested nested') :
    Curtails (expressionOf operand nested) (expressionOf operand' nested') :=
  (operations (fun _ member => Level.accepts_eof member) operands).bind fun target =>
    after Orderly.get fun _ => accept rfl
      (fun equal => inner.bind fun value => refl (Orderly.assignTo target _ equal value))
      (pure target)

theorem operandOf (operands : Curtails operand operand') (inner : Curtails nested nested') :
    Curtails (operandOf operand nested) (operandOf operand' nested') :=
  accept rfl (fun _ => operands.bind fun _ => pure _) (atom inner)

end Expressions

theorem expression_and_operand {levels bound : Nat} (fewer : levels ≤ bound) :
    Curtails (expression levels) (expression bound) ∧
      Curtails (operand levels) (operand bound) := by
  induction levels generalizing bound with
  | zero =>
      exact ⟨overNested (Orderly.expression bound) (Advances.expression bound),
        overNested (Orderly.operand bound) (Advances.operand bound)⟩
  | succ levels inductionHypothesis =>
      cases bound with
      | zero => omega
      | succ bound =>
          rcases inductionHypothesis (Nat.le_of_succ_le_succ fewer) with ⟨expressions, operands⟩
          exact ⟨expressionOf operands expressions, operandOf operands expressions⟩

theorem expression {levels bound : Nat} (fewer : levels ≤ bound) :
    Curtails (expression levels) (expression bound) :=
  (expression_and_operand fewer).1

/-! ## Statements -/

/-- A parser does not reject a token without a report. -/
def Tells (parser : Parser α) : Prop :=
  ∀ cursor after, Ended cursor.ahead → parser cursor = .error .rejected after →
    after.errors ≠ cursor.errors

/-- A declaration that was recovered from has been reported. -/
theorem recovering (parsers : Curtails shallow deep) (tells : Tells deep) (start : Nat) :
    Curtails (recovering start shallow) (recovering start deep) := by
  refine ⟨Orderly.recovering parsers.orderly start, fun cursor found final ended run quiet => ?_⟩
  cases deepRun : deep cursor with
  | ok a middle =>
      rw [recovering_apply_ok deepRun] at run
      cases run
      rcases parsers.stops cursor a final ended deepRun quiet with same | ⟨after, stopped, further⟩
      · exact Or.inl (recovering_apply_ok same)
      · exact Or.inr ⟨after, recovering_apply_error stopped (by simp), further⟩
  | error stop middle =>
      by_cases rejected : stop = .rejected
      · subst rejected
        rw [recovering_apply_rejected deepRun] at run
        have leads := parsers.orderly cursor
        rw [deepRun] at leads
        have leadsOn := ((Orderly.recover start).bind fun _ =>
          Orderly.pure (none : Option α)).leads run
        exact absurd (leads.quiet leadsOn quiet).1 (tells cursor middle ended deepRun)
      · rw [recovering_apply_error deepRun rejected] at run
        cases run

section Statements

variable {expr expr' nested nested' : Parser Node}

theorem sentence (sentence : Sentence) (node : Node) :
    Curtails (do sentenceEnd sentence; return node) (do sentenceEnd sentence; return node) :=
  refl ((Orderly.sentenceEnd sentence).bind fun _ => Orderly.pure node)

theorem condition (guarded : Guarded) (exprs : Curtails expr expr') :
    Curtails (condition guarded expr) (condition guarded expr') :=
  after (Orderly.expect (by simp) _) fun _ => exprs.bind fun _ =>
    after (Orderly.expect (by simp) _) fun _ => pure _

theorem ifRest (exprs : Curtails expr expr') (inner : Curtails nested nested') :
    Curtails (ifRest expr nested) (ifRest expr' nested') :=
  (condition .branch exprs).bind fun _ => inner.bind fun _ =>
    accept rfl (fun _ => inner.bind fun _ => pure _) (pure _)

theorem whileRest (exprs : Curtails expr expr') (inner : Curtails nested nested') :
    Curtails (whileRest expr nested) (whileRest expr' nested') :=
  (condition .loop exprs).bind fun _ => inner.bind fun _ => pure _

theorem varRest (exprs : Curtails expr expr') : Curtails (varRest expr) (varRest expr') :=
  after (Orderly.expect (by simp) _) fun _ =>
    accept rfl (fun _ => exprs.bind fun _ => sentence _ _) (sentence _ _)

theorem declarationOf (exprs : Curtails expr expr') (inner : Curtails nested nested')
    (tells : Tells (bareDeclaration expr' nested')) :
    Curtails (declarationOf expr nested) (declarationOf expr' nested') :=
  after Orderly.get fun _ =>
    recovering (accept rfl (fun _ => varRest exprs) inner) tells _

theorem collect {ends : TokenKind → Bool} {item item' : Parser (Option α)}
    (items : Curtails item item') (fuel : Nat) (collected : List α) :
    Curtails (collect ends item fuel collected) (collect ends item' fuel collected) := by
  induction fuel generalizing collected with
  | zero =>
      refine after Orderly.nextToken fun token => ?_
      split
      · exact pure _
      · exact refl (Orderly.throw .exhausted)
  | succ fuel inductionHypothesis =>
      refine after Orderly.nextToken fun token => ?_
      split
      · exact pure _
      · exact items.bind fun
          | some a => inductionHypothesis (a :: collected)
          | none => inductionHypothesis collected

theorem blockRest {item item' : Parser (Option Node)} (items : Curtails item item') :
    Curtails (blockRest item) (blockRest item') :=
  after (Orderly.modifyOpenBlocks _) fun _ =>
    (after Orderly.get fun _ => collect items _ []).bind fun _ =>
      after (Orderly.modifyOpenBlocks _) fun _ =>
        after (Orderly.expect (by simp) _) fun _ => pure _

theorem statementOf (exprs : Curtails expr expr') (inner : Curtails nested nested')
    (tells : Tells (bareDeclaration expr' nested')) :
    Curtails (statementOf expr nested) (statementOf expr' nested') := by
  refine accept rfl (fun lead => ?_) (exprs.bind fun _ => sentence _ _)
  dsimp only
  split
  · exact exprs.bind fun _ => sentence _ _
  · exact ifRest exprs inner
  · exact whileRest exprs inner
  · exact blockRest (declarationOf exprs inner tells)

end Statements

/-- The verdict on a declaration names the fault that it is rejected for. -/
theorem tells_bareDeclaration (levels : Nat) :
    Tells (bareDeclaration (Grammar.expression levels) (statement levels)) := by
  intro cursor after ended run quiet
  have unnoted {error : SyntaxError} (first : cursor.FirstNote after error) : False := by
    rcases first with ⟨errors, noted, found⟩
    have nothing : errors = [] :=
      List.append_cancel_left (noted.symm.trans (quiet.trans (List.append_nil _).symm))
    subst nothing
    cases found
  cases decides_bareDeclaration (decides_expression levels) (decides_statement levels) _ ended with
  | takes split _ _ restEnded takes =>
      rcases takes _ restEnded cursor split with ⟨_, taken, _⟩
      rw [run] at taken
      cases taken
  | @blames word token rest fault split viable _ blames =>
      obtain ⟨node, others, strays, clause⟩ := viable
      have restEnded : Ended (token :: rest) := by
        rw [split] at ended
        exact ended.of_append fun next member => clause.inside next (List.mem_append_left _ member)
      have first := blames rest restEnded cursor split
      rw [run] at first
      exact unnoted first
  | givesUp givesUp =>
      rcases givesUp cursor rfl with ⟨_, _, stopped, _⟩ | ⟨error, _, first⟩
      · rw [run] at stopped
        cases stopped
      · rw [run] at first
        exact unnoted first

theorem statement {levels bound : Nat} (fewer : levels ≤ bound) :
    Curtails (statement levels) (statement bound) := by
  induction levels generalizing bound with
  | zero => exact overNested (Orderly.statement bound) (Advances.statement bound)
  | succ levels inductionHypothesis =>
      cases bound with
      | zero => omega
      | succ bound =>
          have fewer := Nat.le_of_succ_le_succ fewer
          exact statementOf (expression fewer) (inductionHypothesis fewer)
            (tells_bareDeclaration bound)

theorem declaration {levels bound : Nat} (fewer : levels ≤ bound) :
    Curtails (declaration levels) (declaration bound) :=
  declarationOf (expression fewer) (statement fewer) (tells_bareDeclaration bound)

end Curtails

end TreeWalker.Grammar
