import TreeWalker.Proofs.Grammar.Advance

/-!
# Loops without a bound

A chain of operands and a list of items are read by loops that are given as many
rounds as there are tokens ahead.  Each round takes a token, so the bound is
never met as long as the source has an end, and the loops satisfy the equations
of loops without a bound.
-/

namespace TreeWalker.Grammar

variable {α : Type}

/-! ## Chains of operands -/

/-- Go on with a chain of operands after its left part. -/
def continued (level : Level) (operand : Parser Node) (left : Node) : Parser Node := do
  match ← accept? level.accepts with
  | some operator => chain level operand (← get).ahead.length left operator
  | none => return left

theorem leftAssociative_eq (level : Level) (operand : Parser Node) :
    leftAssociative level operand = operand >>= continued level operand :=
  rfl

theorem Orderly.continued {level : Level} (sourceEnd : level.accepts .eof = false)
    {operand : Parser Node} (orderly : Orderly operand) (left : Node) :
    Orderly (continued level operand left) := by
  refine (accept? sourceEnd).bind fun found => ?_
  cases found with
  | none => exact pure _
  | some operator => exact get.bind fun _ => chain sourceEnd orderly _ _ _

section Chains

variable {level : Level} {operand : Parser Node} {left : Node} {cursor : Cursor} {token : Token}
  {rest : List Token}

/-- The number of rounds does not matter if there are enough of them. -/
theorem chain_fuel (sourceEnd : level.accepts .eof = false) (orderly : Orderly operand)
    (advances : Advances operand) (fuel fuel' : Nat) (left : Node) (operator : Token)
    (ended : Ended cursor.ahead) (enough : cursor.ahead.length ≤ fuel)
    (enough' : cursor.ahead.length ≤ fuel') :
    chain level operand fuel left operator cursor =
      chain level operand fuel' left operator cursor := by
  have nonempty : 0 < cursor.ahead.length := ended.length_pos
  induction fuel generalizing fuel' left operator cursor with
  | zero => omega
  | succ fuel inductionHypothesis =>
      obtain ⟨fuel', rfl⟩ : ∃ k, fuel' = k + 1 := ⟨fuel' - 1, by omega⟩
      rw [chain, chain]
      cases operandRun : operand cursor with
      | error stop middle => rw [bind_apply_error operandRun, bind_apply_error operandRun]
      | ok right middle =>
          rw [bind_apply_ok operandRun, bind_apply_ok operandRun]
          have shorter := advances cursor right middle operandRun
          have middleEnded := (orderly.leads operandRun).ended ended
          cases acceptRun : accept? level.accepts middle with
          | error stop after => rw [bind_apply_error acceptRun, bind_apply_error acceptRun]
          | ok found after =>
              rw [bind_apply_ok acceptRun, bind_apply_ok acceptRun]
              cases found with
              | none => rfl
              | some next =>
                  have leads := (Orderly.accept? sourceEnd).leads acceptRun
                  have length := leads.length_le
                  have afterEnded := leads.ended middleEnded
                  exact inductionHypothesis fuel' _ next afterEnded (by omega) (by omega)
                    (afterEnded.length_pos)

theorem continued_apply_none (split : cursor.ahead = token :: rest)
    (refused : level.accepts token.kind = false) :
    continued level operand left cursor = .ok left cursor := by
  rw [continued, bind_apply_ok (accept?_apply_none split refused)]
  rfl

/-- A chain goes on after an operator with an operand and the rest of the chain. -/
theorem continued_apply_some (sourceEnd : level.accepts .eof = false) (orderly : Orderly operand)
    (advances : Advances operand) (split : cursor.ahead = token :: rest)
    (accepted : level.accepts token.kind = true) (ended : Ended rest) :
    continued level operand left cursor =
      (operand >>= fun right => continued level operand (level.node left token right))
        (cursor.after token rest) := by
  rw [continued, bind_apply_ok (accept?_apply_some split accepted)]
  dsimp only
  rw [get_bind_apply, chain_fuel sourceEnd orderly advances _
    ((cursor.after token rest).ahead.length + 1) _ _ ended (Nat.le_refl _) (Nat.le_succ _), chain]
  cases operandRun : operand (cursor.after token rest) with
  | error stop middle => rw [bind_apply_error operandRun, bind_apply_error operandRun]
  | ok right middle =>
      rw [bind_apply_ok operandRun, bind_apply_ok operandRun, continued]
      have shorter := advances _ right middle operandRun
      have middleEnded := (orderly.leads operandRun).ended ended
      cases acceptRun : accept? level.accepts middle with
      | error stop after => rw [bind_apply_error acceptRun, bind_apply_error acceptRun]
      | ok found after =>
          rw [bind_apply_ok acceptRun, bind_apply_ok acceptRun]
          cases found with
          | none => rfl
          | some next =>
              have leads := (Orderly.accept? sourceEnd).leads acceptRun
              have length := leads.length_le
              exact chain_fuel sourceEnd orderly advances _ _ _ next (leads.ended middleEnded)
                (by omega) (Nat.le_refl _)

end Chains

/-! ## Lists of items -/

/-- Items that take a token unless one that ends the list is next. -/
def Proceeds (ends : TokenKind → Bool) (item : Parser (Option α)) : Prop :=
  ∀ (cursor : Cursor) token rest found after, cursor.ahead = token :: rest →
    ends token.kind = false → item cursor = .ok found after →
    after.ahead.length < cursor.ahead.length

/-- All further items up to a token that ends them. -/
def collectAll (ends : TokenKind → Bool) (item : Parser (Option α)) (collected : List α) :
    Parser (List α) := do
  collect ends item (← get).ahead.length collected

theorem many_eq (ends : TokenKind → Bool) (item : Parser (Option α)) :
    many ends item = collectAll ends item [] :=
  rfl

theorem Orderly.collectAll (ends : TokenKind → Bool) {item : Parser (Option α)}
    (orderly : Orderly item) (collected : List α) : Orderly (collectAll ends item collected) :=
  get.bind fun _ => collect ends orderly _ collected

section Items

variable {ends : TokenKind → Bool} {item : Parser (Option α)} {collected : List α}
  {cursor : Cursor} {token : Token} {rest : List Token}

theorem collect_apply_nil (split : cursor.ahead = []) (fuel : Nat) :
    collect ends item fuel collected cursor = .error .exhausted cursor := by
  cases fuel <;> exact bind_apply_error (nextToken_apply_nil split)

theorem collect_apply_ends (split : cursor.ahead = token :: rest)
    (isEnd : ends token.kind = true) (fuel : Nat) :
    collect ends item fuel collected cursor = .ok collected.reverse cursor := by
  cases fuel <;>
    rw [collect, bind_apply_ok (nextToken_apply split), if_pos isEnd] <;> rfl

theorem collect_apply_item (split : cursor.ahead = token :: rest)
    (isItem : ends token.kind = false) (fuel : Nat) :
    collect ends item (fuel + 1) collected cursor =
      (item >>= fun found => collect ends item fuel (found.toList ++ collected)) cursor := by
  rw [collect, bind_apply_ok (nextToken_apply split), if_neg (by simp [isItem])]
  cases itemRun : item cursor with
  | error stop middle => rw [bind_apply_error itemRun, bind_apply_error itemRun]
  | ok found middle =>
      rw [bind_apply_ok itemRun, bind_apply_ok itemRun]
      cases found <;> rfl

/-- The number of rounds does not matter if there are enough of them. -/
theorem collect_fuel (orderly : Orderly item) (proceeds : Proceeds ends item)
    (fuel fuel' : Nat) (collected : List α) (ended : Ended cursor.ahead)
    (enough : cursor.ahead.length ≤ fuel) (enough' : cursor.ahead.length ≤ fuel') :
    collect ends item fuel collected cursor = collect ends item fuel' collected cursor := by
  induction fuel generalizing fuel' collected cursor with
  | zero =>
      have nonempty : 0 < cursor.ahead.length := ended.length_pos
      omega
  | succ fuel inductionHypothesis =>
      rcases ended.exists_cons with ⟨token, rest, split⟩
      have nonempty : 0 < cursor.ahead.length := ended.length_pos
      obtain ⟨fuel', rfl⟩ : ∃ k, fuel' = k + 1 := ⟨fuel' - 1, by omega⟩
      cases isEnd : ends token.kind with
      | true => rw [collect_apply_ends split isEnd, collect_apply_ends split isEnd]
      | false =>
          rw [collect_apply_item split isEnd, collect_apply_item split isEnd]
          cases itemRun : item cursor with
          | error stop middle => rw [bind_apply_error itemRun, bind_apply_error itemRun]
          | ok found middle =>
              rw [bind_apply_ok itemRun, bind_apply_ok itemRun]
              have shorter := proceeds cursor token rest found middle split isEnd itemRun
              exact inductionHypothesis fuel' _ ((orderly.leads itemRun).ended ended)
                (by omega) (by omega)

/-- What was collected before stands in front of what is collected. -/
theorem collect_collected (fuel : Nat) (collected : List α) :
    collect ends item fuel collected =
      collect ends item fuel [] >>= fun found => pure (collected.reverse ++ found) := by
  induction fuel generalizing collected with
  | zero =>
      rw [collect, collect, bind_assoc]
      refine bind_congr fun token => ?_
      split
      · simp
      · rfl
  | succ fuel inductionHypothesis =>
      rw [collect, collect, bind_assoc]
      refine bind_congr fun token => ?_
      split
      · simp
      · rw [bind_assoc]
        refine bind_congr fun found => ?_
        cases found with
        | none => exact inductionHypothesis collected
        | some a =>
            dsimp only
            rw [inductionHypothesis (a :: collected), inductionHypothesis [a], bind_assoc]
            simp

theorem collectAll_apply_ends (split : cursor.ahead = token :: rest)
    (isEnd : ends token.kind = true) :
    collectAll ends item collected cursor = .ok collected.reverse cursor := by
  rw [collectAll, get_bind_apply, collect_apply_ends split isEnd]

/-- A list of items goes on with an item and the rest of the list. -/
theorem collectAll_apply_item (orderly : Orderly item) (proceeds : Proceeds ends item)
    (split : cursor.ahead = token :: rest) (isItem : ends token.kind = false)
    (ended : Ended cursor.ahead) :
    collectAll ends item collected cursor =
      (item >>= fun found => collectAll ends item (found.toList ++ collected)) cursor := by
  rw [collectAll, get_bind_apply, collect_fuel orderly proceeds _ (cursor.ahead.length + 1) _ ended
    (Nat.le_refl _) (Nat.le_succ _), collect_apply_item split isItem]
  cases itemRun : item cursor with
  | error stop middle => rw [bind_apply_error itemRun, bind_apply_error itemRun]
  | ok found middle =>
      rw [bind_apply_ok itemRun, bind_apply_ok itemRun, collectAll, get_bind_apply]
      have shorter := proceeds cursor token rest found middle split isItem itemRun
      exact collect_fuel orderly proceeds _ _ _ ((orderly.leads itemRun).ended ended)
        (by omega) (Nat.le_refl _)

end Items

/-! ## Declarations proceed -/

/-- Recovery from a declaration that failed has passed a token since the start of
the declaration. -/
theorem recover_length_lt {cursor middle after : Cursor} {token : Token} {rest : List Token}
    (split : cursor.ahead = token :: rest) (inside : token.kind ≠ .eof)
    (leads : cursor.Leads middle) (run : recover cursor.position middle = .ok () after) :
    after.ahead.length < cursor.ahead.length := by
  have further := ((Orderly.recover cursor.position).leads run).length_le
  by_cases moved : middle.position = cursor.position
  · rcases leads.passes with ⟨word, wordSplit, place, _⟩
    have empty : word = [] := List.eq_nil_of_length_eq_zero (by omega)
    have stays : middle.ahead = token :: rest := by rw [← split, wordSplit, empty, List.nil_append]
    rw [recover_apply stays, if_pos (by simp [moved, inside])] at run
    have leadsOn := Orderly.skipToBoundary (show (middle.after token rest).ahead = rest from rfl)
    rw [run] at leadsOn
    have length := leadsOn.length_le
    simp only [cursorOf_ok, Cursor.after] at length
    rw [split, List.length_cons]
    omega
  · have shorter := leads.length_lt_of_position_ne moved
    omega

theorem proceeds_declaration {ends : TokenKind → Bool} (sourceEnd : ends .eof = true)
    (levels : Nat) : Proceeds ends (declaration levels) := by
  intro cursor token rest found after split isItem run
  have inside : token.kind ≠ .eof := fun isEnd => by simp [isEnd, sourceEnd] at isItem
  rw [declaration, declarationOf_apply] at run
  have orderly := Orderly.bareDeclaration (Orderly.expression levels) (Orderly.statement levels)
  cases bareRun : bareDeclaration (expression levels) (statement levels) cursor with
  | ok node middle =>
      rw [recovering_apply_ok bareRun] at run
      cases run
      exact Advances.bareDeclaration (Orderly.expression levels) (Advances.statement levels)
        cursor node _ bareRun
  | error stop middle =>
      by_cases rejected : stop = .rejected
      · subst rejected
        rw [recovering_apply_rejected bareRun] at run
        obtain ⟨_, last, recoverRun, final⟩ := bind_eq_ok_iff.mp run
        cases final
        have leads := orderly cursor
        rw [bareRun] at leads
        exact recover_length_lt split inside leads recoverRun
      · rw [recovering_apply_error bareRun rejected] at run
        cases run

theorem proceeds_topDeclaration (levels : Nat) : Proceeds endsSource (topDeclaration levels) := by
  intro cursor token rest found after split isItem run
  have inside : token.kind ≠ .eof := fun isEnd => by simp [isEnd, endsSource] at isItem
  rw [topDeclaration_apply] at run
  cases declarationRun : declaration levels cursor with
  | ok node middle =>
      rw [abandoning_apply_ok declarationRun] at run
      cases run
      exact proceeds_declaration rfl levels cursor token rest _ _ split isItem declarationRun
  | error stop middle =>
      by_cases overNested : stop = .overNested
      · subst overNested
        rw [abandoning_apply_overNested declarationRun] at run
        rcases bind_eq_ok_iff.mp run with ⟨_, last, abandonRun, final⟩
        cases final
        rcases bind_eq_ok_iff.mp abandonRun with ⟨_, noted, noteRun, abandonRun⟩
        rcases bind_eq_ok_iff.mp abandonRun with ⟨_, closed, closeRun, recoverRun⟩
        have leads := Orderly.declaration levels cursor
        rw [declarationRun] at leads
        have leadsOn := leads.trans ((Orderly.noteNext _).leads noteRun)
        have leadsFar := leadsOn.trans ((Orderly.modifyOpenBlocks _).leads closeRun)
        exact recover_length_lt split inside leadsFar recoverRun
      · rw [abandoning_apply_error declarationRun overNested] at run
        cases run

end TreeWalker.Grammar
