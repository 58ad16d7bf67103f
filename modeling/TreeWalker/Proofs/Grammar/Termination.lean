import TreeWalker.Proofs.Grammar.Balance
import TreeWalker.Proofs.Grammar.Correctness
import TreeWalker.Proofs.Grammar.Locality
import TreeWalker.Proofs.Grammar.Totality

/-!
# Where parsing ends

On a token list with a token for the end of the source, whatever else is in it,
parsing comes to a result.  The cursor then stands at the first such token with
no block open, and what lies beyond that token has no influence.  On the way each
declaration takes a token, so that no token is tried twice.
-/

namespace TreeWalker.Grammar

variable {α : Type}

/-! ## Lists of items -/

section Items

variable {ends : TokenKind → Bool} {item : Parser (Option α)} {fuel : Nat}
  {collected result : List α} {cursor after : Cursor}

/-- A list of items is finished at a token that ends it, or goes on with an item. -/
theorem collect_eq_ok (run : collect ends item fuel collected cursor = .ok result after) :
    (∃ next rest, cursor.ahead = next :: rest ∧ ends next.kind = true ∧ after = cursor) ∨
      ∃ next rest, cursor.ahead = next :: rest ∧ ends next.kind = false ∧
        ∃ fewer found middle, item cursor = .ok found middle ∧ fewer < fuel ∧
          collect ends item fewer (found.toList ++ collected) middle = .ok result after := by
  cases split : cursor.ahead with
  | nil =>
      rw [collect_apply_nil split] at run
      cases run
  | cons next rest =>
      cases isEnd : ends next.kind with
      | true =>
          rw [collect_apply_ends split isEnd] at run
          cases run
          exact Or.inl ⟨next, rest, rfl, isEnd, rfl⟩
      | false =>
          cases fuel with
          | zero =>
              rw [collect, bind_apply_ok (nextToken_apply split), if_neg (by simp [isEnd])] at run
              cases run
          | succ fewer =>
              rw [collect_apply_item split isEnd] at run
              rcases bind_eq_ok_iff.mp run with ⟨found, middle, itemRun, restRun⟩
              exact Or.inr ⟨next, rest, rfl, isEnd, fewer, found, middle, itemRun,
                Nat.lt_succ_self fewer, restRun⟩

/-- A list of items keeps what each item keeps, and is finished at a token that
ends it. -/
theorem collect_keeps (keeps : Cursor → Prop)
    (items : ∀ cursor next rest found after, cursor.ahead = next :: rest →
      ends next.kind = false → item cursor = .ok found after → keeps cursor → keeps after)
    (run : collect ends item fuel collected cursor = .ok result after) (holds : keeps cursor) :
    keeps after ∧ ∃ next rest, after.ahead = next :: rest ∧ ends next.kind = true := by
  induction fuel using Nat.strongRecOn generalizing collected cursor with
  | ind fuel inductionHypothesis =>
      rcases collect_eq_ok run with ⟨next, rest, split, isEnd, rfl⟩ |
        ⟨next, rest, split, isItem, fewer, found, middle, itemRun, less, restRun⟩
      · exact ⟨holds, next, rest, split, isEnd⟩
      · exact inductionHypothesis fewer less restRun
          (items cursor next rest found middle split isItem itemRun holds)

end Items

/-! ## Programs -/

theorem LeavesOpen.of_ok {blocks : Nat} {a : α} {after : Cursor}
    (closed : LeavesOpen blocks (.ok a after : EStateM.Result Stop Cursor α)) :
    after.openBlocks = blocks :=
  closed

/-- No block is open after a declaration that has been given up. -/
theorem abandon_closes {start : Nat} {cursor after : Cursor}
    (run : abandon start cursor = .ok () after) : after.openBlocks = 0 := by
  obtain ⟨_, noted, _, run⟩ := bind_eq_ok_iff.mp run
  rcases bind_eq_ok_iff.mp run with ⟨_, closed, closeRun, recoverRun⟩
  cases closeRun
  have same := Balanced.recover start { noted with openBlocks := 0 }
  rw [recoverRun] at same
  exact same

/-- Between the declarations of a program no block is open. -/
theorem topDeclaration_closes {levels : Nat} {cursor after : Cursor} {found : Option Node}
    (run : topDeclaration levels cursor = .ok found after) (closed : cursor.openBlocks = 0) :
    after.openBlocks = 0 := by
  rw [topDeclaration_apply] at run
  have same := Balanced.declaration levels cursor
  cases declarationRun : declaration levels cursor with
  | ok node middle =>
      rw [abandoning_apply_ok declarationRun] at run
      rw [declarationRun] at same
      cases run
      exact same.of_ok.trans closed
  | error stop middle =>
      by_cases overNested : stop = .overNested
      · subst overNested
        rw [abandoning_apply_overNested declarationRun] at run
        rcases bind_eq_ok_iff.mp run with ⟨_, last, abandonRun, final⟩
        cases final
        exact abandon_closes abandonRun
      · rw [abandoning_apply_error declarationRun overNested] at run
        cases run

/-- A declaration that comes to a result has moved the cursor, unless it stood at
the end of the source. -/
theorem declaration_moves {levels : Nat} {cursor after : Cursor} {found : Option Node}
    {next : Token} {rest : List Token} (split : cursor.ahead = next :: rest)
    (inside : next.kind ≠ .eof) (run : declaration levels cursor = .ok found after) :
    cursor.position < after.position := by
  have proceeds : Proceeds endsSource (declaration levels) := proceeds_declaration rfl levels
  have shorter := proceeds cursor next rest found after split (by simpa [endsSource] using inside)
    run
  obtain ⟨word, ahead, place, _⟩ := ((Orderly.declaration levels).leads run).passes
  rw [ahead, List.length_append] at shorter
  omega

section Sources

variable {body : List Token} {eof : Token}

/-- A program is finished at the first end of the source, with no block open. -/
theorem program_stands (levels : Nat) (source : IsSource body eof) :
    ∃ statements after, program levels (Cursor.atStart (body ++ [eof])) = .ok statements after ∧
      after.ahead = [eof] ∧ after.position = body.length ∧ after.openBlocks = 0 := by
  have ended : Ended (body ++ [eof]) := (ended_singleton source.isEnd).append_left body
  rcases succeeds_program levels (Cursor.atStart (body ++ [eof])) ended with
    ⟨statements, after, run⟩
  obtain ⟨closed, next, others, stands, isEnd⟩ :=
    collect_keeps (fun cursor => cursor.openBlocks = 0)
      (fun _ _ _ _ _ _ _ itemRun => topDeclaration_closes itemRun) run rfl
  obtain ⟨word, split, place, _⟩ := ((Orderly.program levels).leads run).passes
  rw [stands] at split
  rcases source.eq_of_split split (by simpa [endsSource] using isEnd) with ⟨rfl, rfl, rfl⟩
  exact ⟨statements, after, run, stands, by simpa [Cursor.atStart] using place, closed⟩

/-- What lies beyond the end of a source. -/
def beyondEnd (rest : List Token) : Setting :=
  ⟨0, none, [], rest⟩

theorem beyondEnd_place (body : List Token) (eof : Token) (rest : List Token) :
    (beyondEnd rest).place (Cursor.atStart (body ++ [eof])) =
      Cursor.atStart (body ++ eof :: rest) := by
  simp [beyondEnd, Setting.place, Cursor.atStart]

end Sources

end TreeWalker.Grammar
