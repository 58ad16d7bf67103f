import TreeWalker.Proofs.Grammar.Arrival

/-!
# Where the tokens run out

On a token list without an end no program comes to a result.  Parsing stops where a
token is asked for and none is left.  No loop of the grammar stops short of that: it may
take as many rounds as there are tokens, and each round takes one.
-/

namespace TreeWalker.Grammar

variable {α β : Type}

/-- Where the parser runs out of tokens, none is left. -/
def Drains (parser : Parser α) : Prop :=
  ∀ cursor after, parser cursor = .error .exhausted after → after.ahead = []

namespace Drains

variable {parser : Parser α}

/-- A parser that does the same with an end of the source behind the tokens drains them. -/
theorem of_meets (eof : Token) {slack : Nat} (meets : Meets eof slack parser) : Drains parser := by
  intro cursor after run
  have extends' := meets cursor
  rw [run] at extends'
  exact extends'.1

theorem pure (a : α) : Drains (Pure.pure a : Parser α) :=
  fun _ _ => nofun

theorem modify (change : Cursor → Cursor) : Drains (modify change : Parser PUnit) :=
  fun _ _ => nofun

theorem bind {next : α → Parser β} (first : Drains parser) (second : ∀ a, Drains (next a)) :
    Drains (parser >>= next) := by
  intro cursor after run
  rw [bind_apply] at run
  cases firstRun : parser cursor with
  | ok a middle =>
      rw [firstRun] at run
      exact second a middle after run
  | error stop middle =>
      rw [firstRun] at run
      cases run
      exact first cursor after firstRun

theorem noteNext (fault : Fault) : Drains (noteNext fault) := by
  intro cursor after run
  cases split : cursor.ahead with
  | nil =>
      rw [noteNext_apply_nil split] at run
      cases run
      exact split
  | cons token rest =>
      rw [noteNext_apply split] at run
      cases run

theorem recover (start : Nat) : Drains (recover start) :=
  of_meets ⟨.eof, "", .nil, 0⟩ (Meets.recover rfl start)

theorem abandon (start : Nat) : Drains (abandon start) :=
  (noteNext .nesting).bind fun _ => (modify _).bind fun _ => recover start

theorem declaration (levels : Nat) : Drains (declaration levels) :=
  of_meets ⟨.eof, "", .nil, 0⟩ (Meets.declaration rfl levels)

theorem topDeclaration (levels : Nat) : Drains (topDeclaration levels) := by
  intro cursor after run
  rw [topDeclaration_apply] at run
  cases declarationRun : Grammar.declaration levels cursor with
  | ok found middle =>
      rw [abandoning_apply_ok declarationRun] at run
      cases run
  | error stop middle =>
      by_cases overNested : stop = .overNested
      · subst overNested
        rw [abandoning_apply_overNested declarationRun] at run
        exact ((abandon _).bind fun _ => pure _) middle after run
      · rw [abandoning_apply_error declarationRun overNested] at run
        cases run
        exact declaration levels cursor after declarationRun

/-- A list of items has as many rounds as there are tokens, so that it is not the rounds
that run out. -/
theorem collect {ends : TokenKind → Bool} {item : Parser (Option α)} (proceeds : Proceeds ends item)
    (drains : Drains item) {fuel : Nat} {collected : List α} {cursor after : Cursor}
    (enough : cursor.ahead.length ≤ fuel)
    (run : collect ends item fuel collected cursor = .error .exhausted after) :
    after.ahead = [] := by
  induction fuel generalizing collected cursor with
  | zero =>
      have split : cursor.ahead = [] := List.eq_nil_of_length_eq_zero (Nat.le_zero.mp enough)
      rw [collect_apply_nil split] at run
      cases run
      exact split
  | succ fuel inductionHypothesis =>
      cases split : cursor.ahead with
      | nil =>
          rw [collect_apply_nil split] at run
          cases run
          exact split
      | cons token rest =>
          cases isEnd : ends token.kind with
          | true =>
              rw [collect_apply_ends split isEnd] at run
              cases run
          | false =>
              rw [collect_apply_item split isEnd, bind_apply] at run
              cases itemRun : item cursor with
              | ok found middle =>
                  rw [itemRun] at run
                  have shorter := proceeds cursor token rest found middle split isEnd itemRun
                  exact inductionHypothesis (by omega) run
              | error stop middle =>
                  rw [itemRun] at run
                  cases run
                  exact drains cursor after itemRun

theorem program (levels : Nat) : Drains (program levels) :=
  fun _ _ run =>
    collect (proceeds_topDeclaration levels) (topDeclaration levels) (Nat.le_refl _) run

end Drains

/-! ## Programs -/

/-- Without an end the tokens run out. -/
theorem program_exhausted (levels : Nat) {tokens : List Token}
    (endless : ∀ token ∈ tokens, token.kind ≠ .eof) :
    ∃ after, program levels (Cursor.atStart tokens) = .error .exhausted after ∧
      after.ahead = [] := by
  cases run : program levels (Cursor.atStart tokens) with
  | error stop after =>
      have isExhausted := Unfailing.program levels _ _ _ run
      subst isExhausted
      exact ⟨after, rfl, Drains.program levels _ _ run⟩
  | ok statements after =>
      obtain ⟨_, next, others, stands, isEnd⟩ :=
        collect_keeps (fun _ => True) (fun _ _ _ _ _ _ _ _ _ => trivial) run trivial
      obtain ⟨word, split, _⟩ := ((Orderly.program levels).leads run).passes
      have member : next ∈ tokens := by
        rw [show tokens = word ++ after.ahead from split, stands]
        simp
      exact absurd (by simpa [endsSource] using isEnd) (endless next member)

/-- Parsing comes to a result on every token list with an end of the source.  It
stands at the first such end, with no block open, and finds what it finds if the
list is cut there.  A declaration that comes to a result has moved on, unless it
stood at the end, where none is asked for.  Without an end parsing stops where the
tokens have run out. -/
theorem program_terminates (levels : Nat) (tokens : List Token) :
    (∀ body eof rest, tokens = body ++ eof :: rest → IsSource body eof →
      (∃ statements after, program levels (Cursor.atStart tokens) = .ok statements after ∧
        after.ahead = eof :: rest ∧ after.position = body.length ∧ after.openBlocks = 0) ∧
      parseWith (program levels) [] tokens = parseWith (program levels) [] (body ++ [eof])) ∧
    (∀ nested cursor next rest found after, cursor.ahead = next :: rest → next.kind ≠ .eof →
      declaration nested cursor = .ok found after → cursor.position < after.position) ∧
    ((∀ token ∈ tokens, token.kind ≠ .eof) →
      ∃ after, program levels (Cursor.atStart tokens) = .error .exhausted after ∧
        after.ahead = []) := by
  refine ⟨?_, fun _ _ _ _ _ _ split inside run => declaration_moves split inside run,
    program_exhausted levels⟩
  rintro body eof rest rfl source
  have ended : Ended (body ++ [eof]) := (ended_singleton source.isEnd).append_left body
  rcases program_stands levels source with
    ⟨statements, after, run, stands, place, closed⟩
  have whole := Local.program levels (beyondEnd rest) (Cursor.atStart (body ++ [eof])) ended
  rw [beyondEnd_place, run, Setting.result_ok] at whole
  constructor
  · refine ⟨statements, _, whole, ?_, ?_, closed⟩
    · rw [Setting.ahead_place _ stands]
      rfl
    · rw [← place]
      exact Nat.zero_add _
  · rw [parseWith, parseWith, whole, run]
    exact congrArg (Parsed.mk statements) ((beyondEnd rest).diagnostics_place after)

/-- The tokens `{ print ;`, of a block that is not closed. -/
def unclosedBody : List Token :=
  [blankToken (.symbol .leftBrace), blankToken (.keyword .kwPrint), blankToken (.symbol .semicolon)]

/-- The tokens after its end that are not seen. -/
def unclosedRest : List Token :=
  [blankToken (.keyword .kwPrint)]

/-- The block is given up at the end of the source.  Its declaration has moved,
and without the end there would be no result. -/
theorem program_terminates_unclosed :
    ((∃ statements after,
        program 5 (Cursor.atStart (unclosedBody ++ blankToken .eof :: unclosedRest)) =
            .ok statements after ∧
          after.ahead = blankToken .eof :: unclosedRest ∧ after.position = 3 ∧
          after.openBlocks = 0) ∧
      parseWith (program 5) [] (unclosedBody ++ blankToken .eof :: unclosedRest) =
        parseWith (program 5) [] (unclosedBody ++ [blankToken .eof])) ∧
    (∃ after, declaration 5 (Cursor.atStart (unclosedBody ++ [blankToken .eof])) = .ok none after ∧
      0 < after.position) ∧
    ∃ after, program 5 (Cursor.atStart unclosedBody) = .error .exhausted after ∧
      after.ahead = [] := by
  have run : declaration 5 (Cursor.atStart (unclosedBody ++ [blankToken .eof])) =
      .ok none ⟨[blankToken .eof], 3, some (.symbol .semicolon), 0,
        [⟨2, blankToken (.symbol .semicolon), .expression⟩,
          ⟨3, blankToken .eof, .blockClosing⟩]⟩ := by
    rfl
  refine ⟨?_, ⟨_, run, ?_⟩, ?_⟩
  · exact (program_terminates 5 _).1 unclosedBody (blankToken .eof) unclosedRest rfl
      ⟨by decide, rfl⟩
  · exact (program_terminates 5 unclosedBody).2.1 5 _ _ _ _ _ rfl (by decide) run
  · exact (program_terminates 5 unclosedBody).2.2 (by decide)

end TreeWalker.Grammar
