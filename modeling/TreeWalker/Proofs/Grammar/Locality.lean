import TreeWalker.Proofs.Grammar.Loop

/-!
# Parsing a part of a token list

A parser sees the tokens up to the first one for the end of the source, and no
others.  Where it stands in a longer list, what was noted before it started and
what lies beyond that end make no difference: it comes to the same result, moves
as far and notes the same faults at the same tokens.
-/

namespace TreeWalker.Grammar

variable {α β : Type}

theorem Ended.append_right {tokens : List Token} (ended : Ended tokens) (beyond : List Token) :
    Ended (tokens ++ beyond) := by
  rcases ended with ⟨token, member, isEnd⟩
  exact ⟨token, List.mem_append_left beyond member, isEnd⟩

/-- What surrounds a part of a token list: how many tokens stand before it and
the kind of the last of them, the errors noted there, and the tokens beyond. -/
structure Setting where
  offset : Nat
  last : Option TokenKind
  earlier : List SyntaxError
  beyond : List Token

/-- An error at a position counted from further back. -/
def SyntaxError.moved (offset : Nat) (error : SyntaxError) : SyntaxError :=
  { error with position := offset + error.position }

namespace Setting

/-- The cursor in the longer list that stands where a cursor stands in the part. -/
def place (setting : Setting) (cursor : Cursor) : Cursor where
  ahead := cursor.ahead ++ setting.beyond
  position := setting.offset + cursor.position
  last :=
    match cursor.position with
    | 0 => setting.last
    | _ + 1 => cursor.last
  openBlocks := cursor.openBlocks
  errors := setting.earlier ++ cursor.errors.map (SyntaxError.moved setting.offset)

/-- The end in the longer list that belongs to an end in the part. -/
def result (setting : Setting) :
    EStateM.Result Stop Cursor α → EStateM.Result Stop Cursor α
  | .ok a after => .ok a (setting.place after)
  | .error stop after => .error stop (setting.place after)

variable (setting : Setting) {cursor : Cursor} {token : Token} {rest : List Token}

@[simp]
theorem result_ok (a : α) (cursor : Cursor) :
    setting.result (.ok a cursor) = .ok a (setting.place cursor) :=
  rfl

@[simp]
theorem result_error (stop : Stop) (cursor : Cursor) :
    setting.result (.error stop cursor : EStateM.Result Stop Cursor α) =
      .error stop (setting.place cursor) :=
  rfl

theorem ahead_place (split : cursor.ahead = token :: rest) :
    (setting.place cursor).ahead = token :: (rest ++ setting.beyond) := by
  rw [place, split]
  rfl

theorem position_place (cursor : Cursor) :
    (setting.place cursor).position = setting.offset + cursor.position :=
  rfl

theorem place_after (cursor : Cursor) (token : Token) (rest : List Token) :
    setting.place (cursor.after token rest) =
      (setting.place cursor).after token (rest ++ setting.beyond) :=
  rfl

theorem place_note (cursor : Cursor) (position : Nat) (token : Token) (fault : Fault) :
    setting.place { cursor with errors := cursor.errors ++ [⟨position, token, fault⟩] } =
      let placed := setting.place cursor
      { placed with
        errors := placed.errors ++ [⟨setting.offset + position, token, fault⟩] } := by
  simp only [place, List.map_append, List.append_assoc]
  rfl

theorem place_blaming (cursor : Cursor) (token : Token) (fault : Fault) :
    setting.place (cursor.blaming token fault) = (setting.place cursor).blaming token fault :=
  setting.place_note cursor cursor.position token fault

theorem diagnostics_place (cursor : Cursor) :
    (setting.place cursor).diagnostics =
      setting.earlier.map SyntaxError.diagnostic ++ cursor.diagnostics := by
  rw [place, Cursor.diagnostics, Cursor.diagnostics, List.map_append, List.map_map]
  rfl

/-- Away from the start of the part, the token before a cursor is in the part. -/
theorem last_place (moved : cursor.position ≠ 0) : (setting.place cursor).last = cursor.last := by
  rw [place]
  cases positive : cursor.position with
  | zero => contradiction
  | succ position => rfl

end Setting

/-- The parser ends in a longer list as it does in a part of it. -/
def Local (parser : Parser α) : Prop :=
  ∀ (setting : Setting) (cursor : Cursor), Ended cursor.ahead →
    parser (setting.place cursor) = setting.result (parser cursor)

namespace Local

variable {parser : Parser α}

theorem pure (a : α) : Local (Pure.pure a : Parser α) :=
  fun _ _ _ => rfl

theorem throw (stop : Stop) : Local (MonadExcept.throw stop : Parser α) :=
  fun _ _ _ => rfl

theorem bind {next : α → Parser β} (orderly : Orderly parser) (first : Local parser)
    (second : ∀ a, Local (next a)) : Local (parser >>= next) := by
  intro setting cursor ended
  rw [bind_apply, bind_apply, first setting cursor ended]
  cases run : parser cursor with
  | error stop after => rfl
  | ok a after => exact second a setting after ((orderly.leads run).ended ended)

/-- What is done with the cursor may depend on where it stands. -/
theorem get_bind {next : Cursor → Parser β}
    (same : ∀ (setting : Setting) (cursor : Cursor), Ended cursor.ahead →
      next (setting.place cursor) (setting.place cursor) = setting.result (next cursor cursor)) :
    Local (MonadState.get >>= next) :=
  same

theorem modifyOpenBlocks (change : Nat → Nat) :
    Local (modify fun cursor : Cursor =>
      { cursor with openBlocks := change cursor.openBlocks } : Parser PUnit) :=
  fun _ _ _ => rfl

/-! ## Tokens -/

theorem accept? (accepts : TokenKind → Bool) : Local (accept? accepts) := by
  intro setting cursor ended
  rcases ended.exists_cons with ⟨token, rest, split⟩
  have splitPlaced := setting.ahead_place split
  cases accepted : accepts token.kind with
  | true =>
      rw [accept?_apply_some split accepted, accept?_apply_some splitPlaced accepted]
      rfl
  | false =>
      rw [accept?_apply_none split accepted, accept?_apply_none splitPlaced accepted]
      rfl

theorem noteNext (fault : Fault) : Local (noteNext fault) := by
  intro setting cursor ended
  rcases ended.exists_cons with ⟨token, rest, split⟩
  rw [noteNext_apply split, noteNext_apply (setting.ahead_place split), Setting.result_ok,
    Setting.place_blaming]

theorem reject (fault : Fault) : Local (reject fault : Parser α) :=
  (noteNext fault).bind (Orderly.noteNext fault) fun _ => throw .rejected

/-- What comes of a token that may be there. -/
theorem accept {accepts : TokenKind → Bool} (sourceEnd : accepts .eof = false)
    {next : Option Token → Parser β} (found : ∀ token, Local (next (some token)))
    (missing : Local (next none)) : Local (Grammar.accept? accepts >>= next) :=
  (accept? accepts).bind (Orderly.accept? sourceEnd) fun
    | none => missing
    | some token => found token

theorem expect {kind : TokenKind} (inside : kind ≠ .eof) (fault : Fault) :
    Local (expect kind fault) :=
  accept (by simpa using Ne.symm inside) pure (reject fault)

/-! ## Expressions -/

theorem continued {level : Level} (sourceEnd : level.accepts .eof = false) {operand : Parser Node}
    (orderly : Orderly operand) (advances : Advances operand) (operands : Local operand)
    (left : Node) : Local (continued level operand left) := by
  intro setting cursor ended
  induction length : cursor.ahead.length using Nat.strongRecOn generalizing cursor left with
  | ind count inductionHypothesis =>
      rcases ended.exists_cons with ⟨token, rest, split⟩
      have splitPlaced := setting.ahead_place split
      cases accepted : level.accepts token.kind with
      | false =>
          rw [continued_apply_none split accepted, continued_apply_none splitPlaced accepted]
          rfl
      | true =>
          have inside : token.kind ≠ .eof := fun isEnd => by simp [isEnd, sourceEnd] at accepted
          have restEnded : Ended rest := Ended.tail (split ▸ ended) inside
          rw [continued_apply_some sourceEnd orderly advances split accepted restEnded,
            continued_apply_some sourceEnd orderly advances splitPlaced accepted
              (restEnded.append_right _),
            ← Setting.place_after, bind_apply, bind_apply, operands setting _ restEnded]
          cases operandRun : operand (cursor.after token rest) with
          | error stop middle => rfl
          | ok right middle =>
              have shorter := advances _ right middle operandRun
              have fewer : middle.ahead.length < count := by
                rw [← length, split]
                exact Nat.lt_succ_of_lt shorter
              exact inductionHypothesis _ fewer _ middle
                ((orderly.leads operandRun).ended restEnded) rfl

theorem operations {levels : List Level} (sourceEnd : ∀ level ∈ levels, level.accepts .eof = false)
    {operand : Parser Node} (orderly : Orderly operand) (advances : Advances operand)
    (operands : Local operand) : Local (operations operand levels) := by
  induction levels with
  | nil => exact operands
  | cons level tighter inductionHypothesis =>
      have inside : ∀ level ∈ tighter, level.accepts .eof = false := fun level member =>
        sourceEnd level (List.mem_cons_of_mem _ member)
      have tighterOrderly := Orderly.operations inside orderly
      exact (inductionHypothesis inside).bind tighterOrderly
        (continued (sourceEnd level List.mem_cons_self) tighterOrderly
          (Advances.operations inside orderly advances) (inductionHypothesis inside))

theorem assignTo (setting : Setting) (cursor : Cursor) (target : Node) (position : Nat)
    (equal : Token) (value : Node) :
    assignTo target (setting.offset + position) equal value (setting.place cursor) =
      setting.result (assignTo target position equal value cursor) := by
  cases target
  case reference name => rfl
  all_goals exact congrArg (EStateM.Result.ok _) (setting.place_note cursor position equal _).symm

theorem assignmentRest {nested : Parser Node} (inner : Local nested) (target : Node) :
    Local (assignmentRest nested target) := by
  refine get_bind fun setting cursor ended => ?_
  rcases ended.exists_cons with ⟨token, rest, split⟩
  have splitPlaced := setting.ahead_place split
  by_cases isEqual : token.kind = .symbol .equal
  · have accepted : (token.kind == .symbol .equal) = true := by simp [isEqual]
    have restEnded : Ended rest := Ended.tail (split ▸ ended) (by simp [isEqual])
    rw [bind_apply_ok (accept?_apply_some splitPlaced accepted),
      bind_apply_ok (accept?_apply_some split accepted), ← Setting.place_after]
    dsimp only
    rw [bind_apply, bind_apply, inner setting _ restEnded]
    cases nested (cursor.after token rest) with
    | error stop after => rfl
    | ok value after => exact assignTo setting after target cursor.position token value
  · have refused : (token.kind == .symbol .equal) = false := by simp [isEqual]
    rw [bind_apply_ok (accept?_apply_none splitPlaced refused),
      bind_apply_ok (accept?_apply_none split refused)]
    rfl

theorem groupRest {nested : Parser Node} (orderly : Orderly nested) (inner : Local nested) :
    Local (groupRest nested) :=
  inner.bind orderly fun _ =>
    (expect (by simp) .groupClosing).bind (Orderly.expect (by simp) _) fun _ => pure _

theorem atom {nested : Parser Node} (orderly : Orderly nested) (inner : Local nested) :
    Local (atom nested) := by
  intro setting cursor ended
  rcases ended.exists_cons with ⟨token, rest, split⟩
  have splitPlaced := setting.ahead_place split
  rcases atomStart_cases token with ⟨value, constant⟩ | name | opening | other
  · rw [atom_apply_literal split constant, atom_apply_literal splitPlaced constant]
    rfl
  · rw [atom_apply_identifier split name, atom_apply_identifier splitPlaced name]
    rfl
  · have restEnded : Ended rest := Ended.tail (split ▸ ended) (by simp [opening])
    rw [atom_apply_group split opening, atom_apply_group splitPlaced opening,
      ← Setting.place_after]
    exact groupRest orderly inner setting _ restEnded
  · rw [atom_apply_reject split other, atom_apply_reject splitPlaced other]
    exact reject .expression setting cursor ended

theorem operandOf {operand nested : Parser Node} (operandOrderly : Orderly operand)
    (operands : Local operand) (nestedOrderly : Orderly nested) (inner : Local nested) :
    Local (operandOf operand nested) :=
  accept rfl (fun _ => operands.bind operandOrderly fun _ => pure _) (atom nestedOrderly inner)

theorem expression_and_operand (levels : Nat) :
    Local (expression levels) ∧ Local (operand levels) := by
  induction levels with
  | zero => exact ⟨throw .overNested, throw .overNested⟩
  | succ levels inductionHypothesis =>
      rcases inductionHypothesis with ⟨expressions, operands⟩
      constructor
      · have sourceEnd : ∀ level ∈ Level.all, level.accepts .eof = false :=
          fun _ member => Level.accepts_eof member
        exact (operations sourceEnd (Orderly.operand levels) (Advances.operand levels)
          operands).bind (Orderly.operations sourceEnd (Orderly.operand levels))
          (assignmentRest expressions)
      · exact operandOf (Orderly.operand levels) operands (Orderly.expression levels) expressions

theorem expression (levels : Nat) : Local (expression levels) :=
  (expression_and_operand levels).1

/-! ## Recovery -/

/-- Away from the start of the part, a boundary of the part is one of the list. -/
theorem atBoundary_place (setting : Setting) {cursor : Cursor} (moved : cursor.position ≠ 0)
    (next : TokenKind) : atBoundary (setting.place cursor) next = atBoundary cursor next := by
  simp only [atBoundary, setting.last_place moved]
  rfl

theorem skipToBoundary {setting : Setting} {cursor : Cursor} {tokens : List Token}
    (ahead : cursor.ahead = tokens) (ended : Ended tokens) (moved : cursor.position ≠ 0) :
    skipToBoundary (tokens ++ setting.beyond) (setting.place cursor) =
      setting.result (skipToBoundary tokens cursor) := by
  induction tokens generalizing cursor with
  | nil => exact absurd rfl ended.ne_nil
  | cons token rest inductionHypothesis =>
      have same := atBoundary_place setting moved token.kind
      rw [List.cons_append]
      by_cases boundary : atBoundary cursor token.kind = true
      · rw [skipToBoundary_apply_boundary boundary,
          skipToBoundary_apply_boundary (same.trans boundary)]
        rfl
      · rw [skipToBoundary_apply_other ahead boundary,
          skipToBoundary_apply_other (setting.ahead_place ahead) (same ▸ boundary),
          ← Setting.place_after]
        exact inductionHypothesis rfl (ended.tail (ne_eof_of_not_atBoundary boundary))
          (Nat.succ_ne_zero _)

/-- Recovery from a declaration of the part. -/
theorem recover {setting : Setting} {cursor : Cursor} {start : Nat} (ended : Ended cursor.ahead)
    (later : start ≤ cursor.position) :
    recover (setting.offset + start) (setting.place cursor) =
      setting.result (recover start cursor) := by
  rcases ended.exists_cons with ⟨token, rest, split⟩
  have splitPlaced := setting.ahead_place split
  by_cases isEnd : token.kind = .eof
  · rw [recover_apply_end split isEnd, recover_apply_end splitPlaced isEnd]
    rfl
  · by_cases stuck : cursor.position = start
    · subst stuck
      have restEnded : Ended rest := Ended.tail (split ▸ ended) isEnd
      rw [recover_apply_stuck split isEnd, ← Setting.position_place,
        recover_apply_stuck splitPlaced isEnd, ← Setting.place_after]
      exact skipToBoundary rfl restEnded (Nat.succ_ne_zero _)
    · have moved : (setting.place cursor).position ≠ setting.offset + start :=
        fun same => stuck (Nat.add_left_cancel same)
      rw [recover_apply_moved split stuck, recover_apply_moved splitPlaced moved]
      exact skipToBoundary split (split ▸ ended) (by omega)

/-- A run guarded by recovery starts where its declaration does. -/
theorem recovering {parser : Parser α} (orderly : Orderly parser) (inner : Local parser)
    (setting : Setting) (cursor : Cursor) (ended : Ended cursor.ahead) :
    recovering (setting.place cursor).position parser (setting.place cursor) =
      setting.result (recovering cursor.position parser cursor) := by
  have leads := orderly cursor
  have placed := inner setting cursor ended
  cases run : parser cursor with
  | ok a after =>
      rw [run] at placed
      rw [recovering_apply_ok run, recovering_apply_ok placed]
      rfl
  | error stop after =>
      rw [run] at leads placed
      by_cases rejected : stop = .rejected
      · subst rejected
        obtain ⟨word, _, place, _⟩ := leads.passes
        rw [cursorOf_error] at leads place
        rw [recovering_apply_rejected run, recovering_apply_rejected placed, bind_apply, bind_apply,
          Setting.position_place, recover (leads.ended ended) (by omega)]
        cases Grammar.recover cursor.position after <;> rfl
      · rw [recovering_apply_error run rejected, recovering_apply_error placed rejected]
        rfl

/-! ## Statements -/

section Statements

variable {expr nested : Parser Node}

theorem sentence (sentence : Sentence) (node : Node) :
    Local (do sentenceEnd sentence; return node) :=
  bind (Orderly.sentenceEnd sentence)
    ((expect (by simp) _).bind (Orderly.expect (by simp) _) fun _ => pure ()) fun _ => pure node

theorem condition (guarded : Guarded) (orderly : Orderly expr) (inner : Local expr) :
    Local (condition guarded expr) :=
  (expect (by simp) _).bind (Orderly.expect (by simp) _) fun _ => inner.bind orderly fun _ =>
    (expect (by simp) _).bind (Orderly.expect (by simp) _) fun _ => pure _

theorem ifRest (exprOrderly : Orderly expr) (exprs : Local expr) (nestedOrderly : Orderly nested)
    (inner : Local nested) : Local (ifRest expr nested) :=
  (condition .branch exprOrderly exprs).bind (Orderly.condition .branch exprOrderly) fun _ =>
    inner.bind nestedOrderly fun _ =>
      accept rfl (fun _ => inner.bind nestedOrderly fun _ => pure _) (pure _)

theorem whileRest (exprOrderly : Orderly expr) (exprs : Local expr)
    (nestedOrderly : Orderly nested) (inner : Local nested) : Local (whileRest expr nested) :=
  (condition .loop exprOrderly exprs).bind (Orderly.condition .loop exprOrderly) fun _ =>
    inner.bind nestedOrderly fun _ => pure _

theorem varRest (orderly : Orderly expr) (exprs : Local expr) : Local (varRest expr) :=
  (expect (by simp) _).bind (Orderly.expect (by simp) _) fun _ =>
    accept rfl (fun _ => exprs.bind orderly fun _ => sentence _ _) (sentence _ _)

theorem declarationOf (exprOrderly : Orderly expr) (exprs : Local expr)
    (nestedOrderly : Orderly nested) (inner : Local nested) :
    Local (declarationOf expr nested) :=
  get_bind (recovering (Orderly.bareDeclaration exprOrderly nestedOrderly)
    (accept rfl (fun _ => varRest exprOrderly exprs) inner))

theorem collectAll {ends : TokenKind → Bool} {item : Parser (Option α)} (orderly : Orderly item)
    (proceeds : Proceeds ends item) (items : Local item) (collected : List α) :
    Local (collectAll ends item collected) := by
  intro setting cursor ended
  induction length : cursor.ahead.length using Nat.strongRecOn generalizing cursor collected with
  | ind count inductionHypothesis =>
      rcases ended.exists_cons with ⟨token, rest, split⟩
      have splitPlaced := setting.ahead_place split
      cases isEnd : ends token.kind with
      | true =>
          rw [collectAll_apply_ends split isEnd, collectAll_apply_ends splitPlaced isEnd]
          rfl
      | false =>
          rw [collectAll_apply_item orderly proceeds split isEnd ended,
            collectAll_apply_item orderly proceeds splitPlaced isEnd (ended.append_right _),
            bind_apply, bind_apply, items setting cursor ended]
          cases itemRun : item cursor with
          | error stop middle => rfl
          | ok found middle =>
              have shorter := proceeds cursor token rest found middle split isEnd itemRun
              exact inductionHypothesis _ (length ▸ shorter) _ middle
                ((orderly.leads itemRun).ended ended) rfl

theorem blockRest {item : Parser (Option Node)} (orderly : Orderly item)
    (proceeds : Proceeds endsBlock item) (items : Local item) : Local (blockRest item) :=
  (modifyOpenBlocks (· + 1)).bind (Orderly.modifyOpenBlocks _) fun _ =>
    (collectAll orderly proceeds items []).bind (Orderly.many endsBlock orderly) fun _ =>
      (modifyOpenBlocks (· - 1)).bind (Orderly.modifyOpenBlocks _) fun _ =>
        (expect (by simp) _).bind (Orderly.expect (by simp) _) fun _ => pure _

theorem statementOf (exprOrderly : Orderly expr) (exprs : Local expr)
    (nestedOrderly : Orderly nested) (inner : Local nested)
    (proceeds : Proceeds endsBlock (Grammar.declarationOf expr nested)) :
    Local (statementOf expr nested) := by
  refine accept rfl (fun lead => ?_) (exprs.bind exprOrderly fun _ => sentence _ _)
  dsimp only
  split
  · exact exprs.bind exprOrderly fun _ => sentence _ _
  · exact ifRest exprOrderly exprs nestedOrderly inner
  · exact whileRest exprOrderly exprs nestedOrderly inner
  · exact blockRest (Orderly.declarationOf exprOrderly nestedOrderly) proceeds
      (declarationOf exprOrderly exprs nestedOrderly inner)

end Statements

theorem statement (levels : Nat) : Local (statement levels) := by
  induction levels with
  | zero => exact throw .overNested
  | succ levels inductionHypothesis =>
      exact statementOf (Orderly.expression levels) (expression levels)
        (Orderly.statement levels) inductionHypothesis (proceeds_declaration rfl levels)

theorem declaration (levels : Nat) : Local (declaration levels) :=
  declarationOf (Orderly.expression levels) (expression levels) (Orderly.statement levels)
    (statement levels)

/-! ## Programs -/

theorem abandon {setting : Setting} {cursor : Cursor} {start : Nat} (ended : Ended cursor.ahead)
    (later : start ≤ cursor.position) :
    abandon (setting.offset + start) (setting.place cursor) =
      setting.result (abandon start cursor) := by
  rcases ended.exists_cons with ⟨token, rest, split⟩
  rw [Grammar.abandon, Grammar.abandon, bind_apply_ok (noteNext_apply split _),
    bind_apply_ok (noteNext_apply (setting.ahead_place split) _), ← Setting.place_blaming]
  let closed : Cursor := { cursor.blaming token .nesting with openBlocks := 0 }
  have closedEnded : Ended closed.ahead := ended
  exact recover closedEnded later

theorem abandoning {parser : Parser (Option α)} (orderly : Orderly parser) (inner : Local parser)
    (setting : Setting) (cursor : Cursor) (ended : Ended cursor.ahead) :
    abandoning (setting.place cursor).position parser (setting.place cursor) =
      setting.result (abandoning cursor.position parser cursor) := by
  have leads := orderly cursor
  have placed := inner setting cursor ended
  cases run : parser cursor with
  | ok a after =>
      rw [run] at placed
      rw [abandoning_apply_ok run, abandoning_apply_ok placed]
      rfl
  | error stop after =>
      rw [run] at leads placed
      by_cases overNested : stop = .overNested
      · subst overNested
        obtain ⟨word, _, place, _⟩ := leads.passes
        rw [cursorOf_error] at leads place
        rw [abandoning_apply_overNested run, abandoning_apply_overNested placed, bind_apply,
          bind_apply, Setting.position_place, abandon (leads.ended ended) (by omega)]
        cases Grammar.abandon cursor.position after <;> rfl
      · rw [abandoning_apply_error run overNested, abandoning_apply_error placed overNested]
        rfl

theorem topDeclaration (levels : Nat) : Local (topDeclaration levels) :=
  get_bind (abandoning (Orderly.declaration levels) (declaration levels))

theorem program (levels : Nat) : Local (program levels) :=
  collectAll (Orderly.topDeclaration levels) (proceeds_topDeclaration levels)
    (topDeclaration levels) []

end Local

end TreeWalker.Grammar
