import TreeWalker.Proofs.Grammar.Termination
import TreeWalker.Proofs.Grammar.Tidiness

/-!
# How errors follow each other

In a declaration the cursor stays calm, once it has moved, until the declaration is
finished or rejected.  So a token in front of which it is rejected has not been blamed
before, and behind a semicolon only the end of the source is rejected.  Recovery either
skips the token or stays in front of it because parsing may go on there, so that the
cursor is ready again.  Then the next declaration may be rejected at once, but only at a
keyword for which there is no rule, and this one is skipped.

A program in which nothing is nested too deeply is a list of such declarations.
-/

namespace TreeWalker.Grammar

variable {α β : Type}

/-! ## Inside of a declaration -/

/-- A state between being ready and being calm: that of a cursor in a declaration. -/
structure Underway (holds : Cursor → Prop) : Prop where
  ready : ∀ cursor, holds cursor → cursor.Ready
  calm : ∀ cursor, cursor.Calm → holds cursor

/-- A token was rejected in a certain state, or at the end of the source. -/
def StopsIn (holds : Cursor → Prop) (after : Cursor) : Prop :=
  after.Finished ∨ ∃ middle, holds middle ∧ middle.Blamed after

/-- A parser that leads from one state to another, and that rejects a token only in a
certain state or at the end of the source. -/
def Follows (holds before succeeds : Cursor → Prop) (parser : Parser α) : Prop :=
  ∀ cursor, before cursor → EndsIn succeeds (StopsIn holds) (parser cursor)

namespace Follows

variable {holds before middle succeeds : Cursor → Prop} {parser : Parser α}

theorem pure (implied : ∀ cursor, before cursor → succeeds cursor) (a : α) :
    Follows holds before succeeds (Pure.pure a : Parser α) :=
  fun cursor start => implied cursor start

theorem bind {next : α → Parser β} (first : Follows holds before middle parser)
    (second : ∀ a, Follows holds middle succeeds (next a)) :
    Follows holds before succeeds (parser >>= next) :=
  fun cursor start => (first cursor start).bind fun a after ends => second a after ends

section Statements

variable (underway : Underway holds)

include underway

theorem of_gliding (gliding : Gliding parser) : Follows holds holds holds parser := by
  intro cursor start
  have keeps (later : Cursor) (glides : cursor.Glides later) : holds later := by
    rcases (underway.ready cursor start).glides glides with rfl | calm
    · exact start
    · exact underway.calm later calm
  exact (gliding cursor).mono keeps fun after ⟨stopped, glides, blamed⟩ =>
    Or.inr ⟨stopped, keeps stopped glides, blamed⟩

/-- What comes of a token that may be there. -/
theorem accept {accepts : TokenKind → Bool} {next : Option Token → Parser β}
    (inside : InSentence accepts)
    (found : ∀ token, Follows holds holds succeeds (next (some token)))
    (missing : Follows holds holds succeeds (next none)) :
    Follows holds holds succeeds (accept? accepts >>= next) :=
  (of_gliding underway (.accept? inside)).bind fun
    | none => missing
    | some token => found token

/-- The cursor is fresh where a sentence is finished. -/
theorem sentence (sentence : Sentence) (node : Node) :
    Follows holds holds Cursor.Fresh (sentenceEnd sentence >>= fun _ => Pure.pure node) := by
  intro cursor start
  cases split : cursor.ahead with
  | nil =>
      rw [sentenceEnd, bind_assoc, bind_apply_error (expect_apply_nil split _)]
      trivial
  | cons token rest =>
      rw [sentenceEnd, bind_assoc]
      by_cases isEnd : token.kind = .symbol .semicolon
      · rw [bind_apply_ok (expect_apply split isEnd _)]
        exact (underway.ready cursor start).after split (by simp [isEnd])
      · rw [bind_apply_error (expect_apply_ne split isEnd _)]
        exact Or.inr ⟨cursor, start, token, rest, _, split, by simp, rfl⟩

variable {expr nested : Parser Node}

theorem sentenceOf (exprs : Gliding expr) (sentence : Sentence) (tree : Node → Node) :
    Follows holds holds Cursor.Fresh
      (expr >>= fun node => sentenceEnd sentence >>= fun _ => Pure.pure (tree node)) :=
  (of_gliding underway exprs).bind fun _ => Follows.sentence underway sentence _

theorem varRest (exprs : Gliding expr) : Follows holds holds Cursor.Fresh (varRest expr) :=
  (of_gliding underway (.expect ⟨rfl, rfl⟩ (by simp))).bind fun name =>
    accept underway ⟨rfl, rfl⟩ (fun _ => sentenceOf underway exprs _ (.varStmt name))
      (Follows.sentence underway _ _)

/-- A second branch begins behind `else`, in the middle of a declaration. -/
theorem elseRest (inner : Follows holds holds Cursor.Fresh nested) (condition thenBranch : Node) :
    Follows holds Cursor.Fresh Cursor.Fresh (elseRest nested condition thenBranch) := by
  intro cursor fresh
  cases split : cursor.ahead with
  | nil =>
      rw [Grammar.elseRest, bind_apply_error (accept?_apply_nil split)]
      trivial
  | cons token rest =>
      by_cases isElse : token.kind = .keyword .kwElse
      · have calm : (cursor.after token rest).Calm :=
          ⟨fresh.after token rest, by simp [Cursor.after, isElse]⟩
        rw [Grammar.elseRest, bind_apply_ok (accept?_apply_some split (by simp [isElse]))]
        exact (inner.bind fun _ => pure (fun _ => id) _) _ (underway.calm _ calm)
      · rw [Grammar.elseRest, bind_apply_ok (accept?_apply_none split (by simp [isElse]))]
        exact fresh

theorem ifRest (exprs : Gliding expr) (inner : Follows holds holds Cursor.Fresh nested) :
    Follows holds holds Cursor.Fresh (ifRest expr nested) := by
  rw [ifRest_eq]
  exact (of_gliding underway (.condition .branch exprs)).bind fun condition =>
    inner.bind fun thenBranch => elseRest underway inner condition thenBranch

theorem whileRest (exprs : Gliding expr) (inner : Follows holds holds Cursor.Fresh nested) :
    Follows holds holds Cursor.Fresh (whileRest expr nested) :=
  (of_gliding underway (.condition .loop exprs)).bind fun _ => inner.bind fun _ =>
    pure (fun _ => id) _

theorem bareDeclaration (exprs : Gliding expr) (inner : Follows holds holds Cursor.Fresh nested) :
    Follows holds holds Cursor.Fresh (bareDeclaration expr nested) :=
  accept underway ⟨rfl, rfl⟩ (fun _ => varRest underway exprs) inner

end Statements

end Follows

/-! ## Recovery -/

/-- The cursor has not moved since a declaration began, or is calm. -/
def Begun (start cursor : Cursor) : Prop :=
  cursor = start ∨ cursor.Calm

theorem Cursor.Ready.underway {start : Cursor} (ready : start.Ready) : Underway (Begun start) where
  ready := by
    rintro cursor (rfl | calm)
    · exact ready
    · exact calm.toFresh.ready
  calm := fun _ => Or.inr

/-- Tokens that are skipped are not blamed. -/
theorem Cursor.Fresh.skip {tokens : List Token} {cursor after : Cursor} (fresh : cursor.Fresh)
    (ahead : cursor.ahead = tokens) (run : skipToBoundary tokens cursor = .ok () after) :
    after.Fresh := by
  induction tokens generalizing cursor with
  | nil => cases run
  | cons token rest inductionHypothesis =>
      by_cases boundary : atBoundary cursor token.kind = true
      · rw [skipToBoundary_apply_boundary boundary] at run
        cases run
        exact fresh
      · rw [skipToBoundary_apply_other ahead boundary] at run
        exact inductionHypothesis (fresh.after token rest) rfl run

/-- Behind no semicolon, parsing goes on only in front of certain tokens. -/
theorem bounds_of_atBoundary {cursor : Cursor} {kind : TokenKind}
    (boundary : atBoundary cursor kind = true) (last : cursor.last ≠ some (.symbol .semicolon)) :
    Bounds kind cursor.openBlocks := by
  intro other same
  have noSentence : (cursor.last == some (.symbol .semicolon)) = false := by simpa using last
  unfold atBoundary at boundary ⊢
  rw [noSentence, Bool.false_or] at boundary
  rw [same, boundary, Bool.or_true]

/-- Where a declaration may begin although no rule for one begins there, there is a
keyword that lacks a rule. -/
theorem lacksRule_of_bounds {kind : TokenKind} {openBlocks : Nat} (bounds : Bounds kind openBlocks)
    (inside : kind ≠ .eof) (noEnd : kind = .symbol .rightBrace → openBlocks = 0)
    (notVar : kind ≠ .keyword .kwVar) (notLead : leadsStatement kind = false) :
    lacksRule kind = true := by
  have boundary := bounds ⟨[], 0, none, openBlocks, []⟩ rfl
  cases kind with
  | keyword keyword =>
      cases keyword <;> simp_all [atBoundary, Keyword.startsStatement, leadsStatement, lacksRule]
  | symbol symbol => cases symbol <;> simp_all [atBoundary]
  | identifier | string | number | eof | other => simp_all [atBoundary]

section Recovery

variable {limit : Nat} {cursor stopped after : Cursor} {token : Token} {rest : List Token}
  {fault : Fault}

/-- A parser that takes a token has moved, however it ends. -/
theorem position_lt_of_accept {accepts : TokenKind → Bool} {next : Option Token → Parser β}
    (split : cursor.ahead = token :: rest) (accepted : accepts token.kind = true)
    (orderly : Orderly (next (some token))) :
    cursor.position < (cursorOf ((accept? accepts >>= next) cursor)).position := by
  rw [bind_apply_ok (accept?_apply_some split accepted)]
  obtain ⟨word, _, place, _⟩ := (orderly (cursor.after token rest)).passes
  have moved : (cursor.after token rest).position = cursor.position + 1 := rfl
  omega

/-- Statements other than expressions take the token they begin with. -/
theorem position_lt_of_lead (split : cursor.ahead = token :: rest)
    (isLead : leadsStatement token.kind = true) :
    cursor.position < (cursorOf (statement (limit + 1) cursor)).position := by
  have expressions := Orderly.expression limit
  have statements := Orderly.statement limit
  refine position_lt_of_accept split isLead ?_
  dsimp only
  split
  · exact Orderly.printRest expressions
  · exact Orderly.ifRest expressions statements
  · exact Orderly.whileRest expressions statements
  · exact Orderly.blockRest (Orderly.declarationOf expressions statements)

/-- No rule but that for expressions begins with a token that is rejected at once. -/
theorem plainDeclaration_stuck (split : cursor.ahead = token :: rest)
    (run : plainDeclaration limit cursor = .error .rejected stopped)
    (stuck : stopped.position = cursor.position) :
    token.kind ≠ .keyword .kwVar ∧ leadsStatement token.kind = false := by
  have notVar : token.kind ≠ .keyword .kwVar := fun isVar => by
    have moved : cursor.position < (cursorOf (plainDeclaration limit cursor)).position := by
      refine position_lt_of_accept split (by simp [isVar]) ?_
      exact Orderly.varRest (Orderly.expression limit)
    rw [run, cursorOf_error] at moved
    omega
  refine ⟨notVar, Bool.eq_false_iff.mpr fun isLead => ?_⟩
  have statementRun : statement limit cursor = .error .rejected stopped := by
    rwa [plainDeclaration, bareDeclaration,
      bind_apply_ok (accept?_apply_none split (by simpa using notVar))] at run
  cases limit with
  | zero => cases statementRun
  | succ limit =>
      have moved : cursor.position < (cursorOf (statement (limit + 1) cursor)).position :=
        position_lt_of_lead split isLead
      rw [statementRun, cursorOf_error] at moved
      omega

/-- At the end of the source recovery does not move. -/
theorem Cursor.Finished.recover (finished : stopped.Finished) {start : Nat}
    (run : recover start stopped = .ok () after) : after.Ready := by
  obtain ⟨token, rest, split, isEnd⟩ := finished.next
  rw [recover_apply_end split isEnd] at run
  cases run
  exact finished.ready

/-- Recovery in front of a token that was blamed in the middle of a declaration. -/
theorem Cursor.Calm.skip (calm : cursor.Calm) (split : cursor.ahead = token :: rest)
    (isFault : fault ≠ .assignmentTarget)
    (run : skipToBoundary (token :: rest) (cursor.blaming token fault) = .ok () after) :
    after.Ready := by
  have tidy := calm.toTidy.blaming token isFault
  have once : blameCount (cursor.blaming token fault).errors cursor.position = 1 := by
    rw [cursor.blameCount_blaming token isFault, calm.blameless]
  by_cases boundary : atBoundary (cursor.blaming token fault) token.kind = true
  · rw [skipToBoundary_apply_boundary boundary] at run
    cases run
    refine ⟨tidy, fun next others ahead _ => ⟨Nat.le_of_eq once, fun _ => ?_⟩⟩
    cases split.symm.trans ahead
    exact bounds_of_atBoundary boundary calm.last
  · have ahead : (cursor.blaming token fault).ahead = token :: rest := split
    rw [skipToBoundary_apply_other ahead boundary] at run
    exact ((tidy.after (.of_le_one (Nat.le_of_eq once)) token rest).skip rfl run).ready

/-- A token that a declaration rejects at once may have been blamed before only if it
lacks a rule. -/
theorem Cursor.Ready.bearable_rejected (ready : cursor.Ready) (split : cursor.ahead = token :: rest)
    (inside : token.kind ≠ .eof) (noEnd : token.kind = .symbol .rightBrace → cursor.openBlocks = 0)
    (isFault : fault ≠ .assignmentTarget)
    (rejected : plainDeclaration limit cursor = .error .rejected (cursor.blaming token fault)) :
    Bearable (cursor.blaming token fault).errors cursor.position := by
  have count := cursor.blameCount_blaming token isFault
  obtain ⟨once, bounds⟩ := ready.next token rest split inside
  refine ⟨by omega, fun twice => ⟨⟨cursor.position, token, fault⟩, ?_, rfl, ?_⟩⟩
  · rw [Cursor.blaming, faults_concat isFault]
    exact List.mem_append_right _ (List.mem_singleton_self _)
  · obtain ⟨notVar, notLead⟩ := plainDeclaration_stuck split rejected rfl
    exact lacksRule_of_bounds (bounds (by omega)) inside noEnd notVar notLead

/-- After a declaration that was rejected the next one may begin. -/
theorem recover_ready (ready : cursor.Ready) (split : cursor.ahead = token :: rest)
    (inside : token.kind ≠ .eof) (noEnd : token.kind = .symbol .rightBrace → cursor.openBlocks = 0)
    (rejected : plainDeclaration limit cursor = .error .rejected stopped)
    (stops : StopsIn (Begun cursor) stopped)
    (run : recover cursor.position stopped = .ok () after) : after.Ready := by
  rcases stops with finished | ⟨middle, begun, token', rest', fault, ahead, isFault, rfl⟩
  · exact finished.recover run
  have tidy : (middle.blaming token' fault).Tidy :=
    (ready.underway.ready middle begun).toTidy.blaming token' isFault
  have stands : (middle.blaming token' fault).ahead = token' :: rest' := ahead
  by_cases isEnd : token'.kind = .eof
  · exact Cursor.Finished.recover ⟨tidy, token', rest', stands, isEnd⟩ run
  by_cases stuck : (middle.blaming token' fault).position = cursor.position
  · rw [← stuck, recover_apply_stuck stands isEnd] at run
    -- The token is skipped, so it is enough that it has not been blamed too often.
    suffices bearable : Bearable (middle.blaming token' fault).errors middle.position from
      ((tidy.after bearable token' rest').skip rfl run).ready
    rcases begun with rfl | calm
    · cases split.symm.trans ahead
      exact ready.bearable_rejected split inside noEnd isFault rejected
    · refine .of_le_one (Nat.le_of_eq ?_)
      rw [middle.blameCount_blaming token' isFault, calm.blameless]
  · rw [recover_apply_moved stands stuck] at run
    rcases begun with rfl | calm
    · exact absurd rfl stuck
    · exact calm.skip ahead isFault run

end Recovery

/-! ## Programs -/

/-- Between the statements of a block the cursor is ready. -/
theorem declaration_ready {limit : Nat} {cursor after : Cursor} {token : Token} {rest : List Token}
    {found : Option Node}
    (statements : Follows (Begun cursor) (Begun cursor) Cursor.Fresh (statement limit))
    (ready : cursor.Ready) (split : cursor.ahead = token :: rest) (inside : token.kind ≠ .eof)
    (noEnd : token.kind = .symbol .rightBrace → cursor.openBlocks = 0)
    (run : declaration limit cursor = .ok found after) : after.Ready := by
  have ends : EndsIn Cursor.Fresh (StopsIn (Begun cursor)) (plainDeclaration limit cursor) :=
    Follows.bareDeclaration ready.underway (.expression limit) statements cursor (Or.inl rfl)
  rw [declaration, declarationOf_apply] at run
  cases bareRun : plainDeclaration limit cursor with
  | ok node middle =>
      rw [bareRun] at ends
      rw [recovering_apply_ok bareRun] at run
      cases run
      exact Cursor.Fresh.ready ends
  | error stop middle =>
      rw [bareRun] at ends
      by_cases rejected : stop = .rejected
      · subst rejected
        rw [recovering_apply_rejected bareRun] at run
        obtain ⟨_, last, recovers, final⟩ := bind_eq_ok_iff.mp run
        cases final
        exact recover_ready ready split inside noEnd bareRun ends recovers
      · rw [recovering_apply_error bareRun rejected] at run
        cases run

/-- More blocks that are open make no boundary less. -/
theorem Bounds.mono {kind : TokenKind} {fewer more : Nat} (bounds : Bounds kind fewer)
    (le : fewer ≤ more) : Bounds kind more := by
  intro cursor same
  have boundary := bounds { cursor with openBlocks := fewer } rfl
  unfold atBoundary at boundary ⊢
  rw [Bool.or_eq_true] at boundary ⊢
  refine boundary.imp_right fun here => ?_
  split at here <;> simp_all
  omega

theorem eof_or_rightBrace_of_endsBlock {kind : TokenKind} (isEnd : endsBlock kind = true) :
    kind = .eof ∨ kind = .symbol .rightBrace := by
  unfold endsBlock at isEnd
  split at isEnd
  · exact Or.inl rfl
  · exact Or.inr rfl
  · cases isEnd

namespace Follows

variable {holds : Cursor → Prop}

theorem blockRest (underway : Underway holds) {limit : Nat}
    (statements : ∀ holds, Underway holds →
      Follows holds holds Cursor.Fresh (statement limit)) :
    Follows holds holds Cursor.Fresh (blockRest (declaration limit)) := by
  intro cursor start
  have ready := underway.ready cursor start
  let opened : Cursor := { cursor with openBlocks := cursor.openBlocks + 1 }
  have openedReady : opened.Ready :=
    ⟨ready.toTidy.openBlocks _, fun token rest split inside =>
      (ready.next token rest split inside).imp_right fun bounds once =>
        (bounds once).mono (Nat.le_succ _)⟩
  change EndsIn _ _ ((many endsBlock (declaration limit) >>= _) opened)
  rw [bind_apply]
  cases run : many endsBlock (declaration limit) opened with
  | error stop after =>
      cases stop with
      | rejected => exact absurd run (many_ne_rejected (declarationOf_ne_rejected _ _) opened after)
      | overNested | exhausted => trivial
  | ok body middle =>
      obtain ⟨middleReady, token, rest, split, isEnd⟩ := collect_keeps Cursor.Ready
        (fun cursor token rest found after split isItem itemRun ready =>
          declaration_ready (statements _ ready.underway) ready split
            (fun isEof => by simp [isEof, endsBlock] at isItem)
            (fun isBrace => by simp [isBrace, endsBlock] at isItem) itemRun) run openedReady
      let closed : Cursor := { middle with openBlocks := middle.openBlocks - 1 }
      have closedSplit : closed.ahead = token :: rest := split
      change EndsIn _ _ ((expect (.symbol .rightBrace) .blockClosing >>= _) closed)
      rcases eof_or_rightBrace_of_endsBlock isEnd with isEof | isBrace
      · rw [bind_apply_error (expect_apply_ne closedSplit (by simp [isEof]) _)]
        have tidy := (middleReady.toTidy.openBlocks (middle.openBlocks - 1)).blaming token
          (show Fault.blockClosing ≠ .assignmentTarget by simp)
        exact Or.inl ⟨tidy, token, rest, split, isEof⟩
      · rw [bind_apply_ok (expect_apply closedSplit isBrace _)]
        have fresh := middleReady.after split (by simp [isBrace])
        exact ⟨fresh.toTidy.openBlocks _, fresh.blameless⟩

theorem statement (limit : Nat) (underway : Underway holds) :
    Follows holds holds Cursor.Fresh (statement limit) := by
  induction limit generalizing holds with
  | zero => exact fun _ _ => trivial
  | succ limit inductionHypothesis =>
      have exprs := Gliding.expression limit
      refine accept underway ⟨rfl, rfl⟩ (fun lead => ?_)
        (sentenceOf underway exprs .expression .exprStmt)
      dsimp only
      split
      · exact sentenceOf underway exprs .value .printStmt
      · exact ifRest underway exprs (inductionHypothesis underway)
      · exact whileRest underway exprs (inductionHypothesis underway)
      · exact blockRest underway fun _ => inductionHypothesis

end Follows

/-- The declarations of a program, none of which is given up. -/
def declarations (levels : Nat) : Parser (List Node) :=
  many endsSource (declaration levels)

/-- Between the declarations of a program the cursor is ready and no block is open. -/
theorem declarations_ready {levels : Nat} {tokens : List Token} {statements : List Node}
    {after : Cursor} (run : declarations levels (Cursor.atStart tokens) = .ok statements after) :
    after.Ready := by
  refine (collect_keeps (fun cursor => cursor.Ready ∧ cursor.openBlocks = 0) ?_ run
    ⟨Cursor.ready_atStart tokens, rfl⟩).1.1
  rintro cursor next rest found middle split isItem itemRun ⟨ready, closed⟩
  have balanced := Balanced.declaration levels cursor
  rw [itemRun] at balanced
  exact ⟨declaration_ready (.statement levels ready.underway) ready split
    (by simpa [endsSource] using isItem) (fun _ => closed) itemRun, balanced.of_ok.trans closed⟩

/-! ## Programs within the limit -/

/-- A declaration was nested too deeply. -/
def Cursor.OverNested (cursor : Cursor) : Prop :=
  ∃ error ∈ cursor.errors, error.fault = .nesting

theorem Cursor.OverNested.leads {cursor later : Cursor} (overNested : cursor.OverNested)
    (leads : cursor.Leads later) : later.OverNested := by
  obtain ⟨error, member, nested⟩ := overNested
  obtain ⟨errors, noted⟩ := leads.notes
  exact ⟨error, noted ▸ List.mem_append_left _ member, nested⟩

/-- A declaration that is given up in front of a token is reported there. -/
theorem overNested_of_abandon {start : Nat} {cursor : Cursor} (ahead : cursor.ahead ≠ []) :
    (cursorOf (abandon start cursor)).OverNested := by
  obtain ⟨token, rest, split⟩ := List.exists_cons_of_ne_nil ahead
  have noted : (cursor.blaming token .nesting).OverNested :=
    ⟨⟨cursor.position, token, .nesting⟩, List.mem_append_right _ (List.mem_singleton_self _), rfl⟩
  rw [abandon, bind_apply_ok (noteNext_apply split _)]
  exact noted.leads (((Orderly.modifyOpenBlocks _).bind fun _ => Orderly.recover start) _)

/-- A program is its declarations, unless one of them is nested too deeply. -/
theorem program_cases (levels : Nat) (cursor : Cursor) :
    program levels cursor = declarations levels cursor ∨
      ∃ after, declarations levels cursor = .error .overNested after ∧
        (after.ahead ≠ [] → (cursorOf (program levels cursor)).OverNested) := by
  unfold program declarations many
  rw [get_bind_apply, get_bind_apply]
  generalize cursor.ahead.length = fuel, ([] : List Node) = collected
  induction fuel generalizing collected cursor with
  | zero => exact Or.inl rfl
  | succ fuel inductionHypothesis =>
      cases split : cursor.ahead with
      | nil =>
          exact Or.inl ((collect_apply_nil split _).trans (collect_apply_nil split _).symm)
      | cons token rest =>
          cases isItem : endsSource token.kind with
          | true =>
              refine Or.inl ?_
              rw [collect_apply_ends split isItem, collect_apply_ends split isItem]
          | false =>
              rw [collect_apply_item split isItem, collect_apply_item split isItem, bind_apply,
                bind_apply, topDeclaration_apply]
              cases run : declaration levels cursor with
              | ok found middle =>
                  rw [abandoning_apply_ok run]
                  exact inductionHypothesis middle _
              | error stop after =>
                  by_cases overNested : stop = .overNested
                  · subst overNested
                    refine Or.inr ⟨after, rfl, fun ahead => ?_⟩
                    have reported : (cursorOf (abandon cursor.position after)).OverNested :=
                      overNested_of_abandon ahead
                    rw [abandoning_apply_overNested run, bind_apply]
                    cases abandoned : abandon cursor.position after with
                    | error stop later => rwa [abandoned] at reported
                    | ok _ later =>
                        rw [abandoned] at reported
                        exact reported.leads
                          (Orderly.collect endsSource (Orderly.topDeclaration levels) fuel _ later)
                  · rw [abandoning_apply_error run overNested]
                    exact Or.inl rfl

/-- A program that is nested within the limit is its declarations. -/
theorem program_within {levels : Nat} {cursor : Cursor} (ended : Ended cursor.ahead)
    (within : ¬ (cursorOf (program levels cursor)).OverNested) :
    program levels cursor = declarations levels cursor := by
  rcases program_cases levels cursor with same | ⟨after, stops, reported⟩
  · exact same
  · have leads := Orderly.many endsSource (Orderly.declaration levels) cursor
    rw [show many endsSource (declaration levels) cursor = .error .overNested after from stops]
      at leads
    exact absurd (reported (leads.ended ended).ne_nil) within

end TreeWalker.Grammar
