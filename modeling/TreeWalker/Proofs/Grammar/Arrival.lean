import TreeWalker.Proofs.Grammar.Cascade

/-!
# At the end of the source

Where the tokens run out, a run on the same tokens with an end of the source behind
them has come to the end.  What it still does there is to leave the rules it is in.
One of them may reject the end, and so does each block that is open, which is thereby
closed.  So the end is blamed once more than there are open blocks, and no more often.

This is shown by comparing two runs, one of which stops where the other one arrives at
the end.  Up to there they do the same.
-/

namespace TreeWalker.Grammar

variable {α β : Type}

/-- The cursor with an end of the source behind the tokens ahead. -/
def Cursor.ending (cursor : Cursor) (eof : Token) : Cursor :=
  { cursor with ahead := cursor.ahead ++ [eof] }

/-- How often the end of the source is blamed. -/
def endCount (errors : List SyntaxError) : Nat :=
  (faults errors).countP fun error => error.token.kind == .eof

/-- How often the end of the source is blamed, if it is for each block that is open. -/
def Cursor.weight (cursor : Cursor) : Nat :=
  endCount cursor.errors + cursor.openBlocks

/-- A run that goes on from a cursor at the end of the source stays there, and blames
the end once at most, not counting the blocks that it closes.  If it succeeds, it may
have blamed it so often. -/
def Arrives (eof : Token) (slack : Nat) (cursor : Cursor) :
    EStateM.Result Stop Cursor α → Prop
  | .ok _ after => after.ahead = [eof] ∧ after.weight ≤ cursor.weight + slack
  | .error .rejected after => after.ahead = [eof] ∧ after.weight ≤ cursor.weight + 1
  | .error _ _ => True

/-- The second run does what the first one does, or arrives at the end where the tokens
of the first one run out. -/
def Extends (eof : Token) (slack : Nat) (short long : EStateM.Result Stop Cursor α) : Prop :=
  match short with
  | .ok a after => long = .ok a (after.ending eof)
  | .error .exhausted after => after.ahead = [] ∧ Arrives eof slack after long
  | .error stop after => long = .error stop (after.ending eof)

/-- A parser that does not go beyond the end of the source. -/
def Rests (eof : Token) (parser : Parser α) : Prop :=
  ∀ cursor : Cursor, cursor.ahead = [eof] → Arrives eof 0 cursor (parser cursor)

/-- A parser that does the same with an end of the source behind the tokens, until it
arrives there. -/
def Meets (eof : Token) (slack : Nat) (parser : Parser α) : Prop :=
  ∀ cursor : Cursor, Extends eof slack (parser cursor) (parser (cursor.ending eof))

section Weights

variable {eof token : Token} {cursor : Cursor} {rest : List Token}

theorem Cursor.ending_split (split : cursor.ahead = token :: rest) :
    (cursor.ending eof).ahead = token :: (rest ++ [eof]) := by
  rw [Cursor.ending, split]
  rfl

theorem Cursor.ending_nil (split : cursor.ahead = []) : (cursor.ending eof).ahead = [eof] := by
  rw [Cursor.ending, split]
  rfl

/-- An error makes the weight larger by one at most. -/
theorem Cursor.weight_blaming_le (cursor : Cursor) (token : Token) (fault : Fault) :
    (cursor.blaming token fault).weight ≤ cursor.weight + 1 := by
  by_cases isStray : fault = .assignmentTarget
  · subst isStray
    simp [Cursor.blaming, Cursor.weight, endCount, faults, SyntaxError.isStray]
  · rw [Cursor.weight, Cursor.weight, Cursor.blaming, endCount, faults_concat isStray,
      List.countP_append, ← endCount]
    have one := List.countP_le_length (p := fun error : SyntaxError => error.token.kind == .eof)
      (l := [⟨cursor.position, token, fault⟩])
    have length : [(⟨cursor.position, token, fault⟩ : SyntaxError)].length = 1 := rfl
    dsimp only
    omega

end Weights

section Ends

variable {eof : Token} {slack more : Nat}

theorem Arrives.mono {cursor later : Cursor} {result : EStateM.Result Stop Cursor α}
    (arrives : Arrives eof slack later result) (less : later.weight ≤ cursor.weight)
    (loose : slack ≤ more) : Arrives eof more cursor result := by
  cases result with
  | ok a after => exact ⟨arrives.1, by have := arrives.2; omega⟩
  | error stop after =>
      cases stop with
      | rejected => exact ⟨arrives.1, by have := arrives.2; omega⟩
      | overNested | exhausted => trivial

/-- Two runs one after the other.  Where the first one has arrived at the end, it matters
what the second one does there. -/
theorem Extends.followed {short long : Parser α} {next next' : α → Parser β} {cursor : Cursor}
    (first : Extends eof more (short cursor) (long (cursor.ending eof)))
    (second : ∀ a after, short cursor = .ok a after →
      Extends eof slack (next a after) (next' a (after.ending eof)))
    (arrives : ∀ a (stopped later : Cursor), later.ahead = [eof] →
      later.weight ≤ stopped.weight + more → Arrives eof slack stopped (next' a later)) :
    Extends eof slack ((short >>= next) cursor) ((long >>= next') (cursor.ending eof)) := by
  rw [bind_apply, bind_apply]
  cases shortRun : short cursor with
  | ok a after =>
      rw [shortRun] at first
      rw [show long (cursor.ending eof) = .ok a (after.ending eof) from first]
      exact second a after shortRun
  | error stop after =>
      rw [shortRun] at first
      cases stop with
      | rejected | overNested =>
          rw [show long (cursor.ending eof) = .error _ (after.ending eof) from first]
          exact rfl
      | exhausted =>
          obtain ⟨out, ends⟩ := first
          refine ⟨out, ?_⟩
          cases longRun : long (cursor.ending eof) with
          | ok a later =>
              rw [longRun] at ends
              exact arrives a after later ends.1 ends.2
          | error stop later =>
              rw [longRun] at ends
              cases stop <;> exact ends

theorem Extends.bind {short long : Parser α} {next next' : α → Parser β} {cursor : Cursor}
    (first : Extends eof 0 (short cursor) (long (cursor.ending eof)))
    (second : ∀ a after, short cursor = .ok a after →
      Extends eof slack (next a after) (next' a (after.ending eof)))
    (rests : ∀ a, Rests eof (next' a)) :
    Extends eof slack ((short >>= next) cursor) ((long >>= next') (cursor.ending eof)) :=
  first.followed second fun a _ later stands less =>
    (rests a later stands).mono less (Nat.zero_le _)

/-- What comes of a token that may be there. -/
theorem Extends.accept {accepts : TokenKind → Bool} {next next' : Option Token → Parser β}
    {cursor : Cursor} (isEnd : eof.kind = .eof) (sourceEnd : accepts .eof = false)
    (found : ∀ token rest, cursor.ahead = token :: rest → accepts token.kind = true →
      Extends eof slack (next (some token) (cursor.after token rest))
        (next' (some token) ((cursor.after token rest).ending eof)))
    (missing : Extends eof slack (next none cursor) (next' none (cursor.ending eof)))
    (rests : Rests eof (next' none)) :
    Extends eof slack ((accept? accepts >>= next) cursor)
      ((accept? accepts >>= next') (cursor.ending eof)) := by
  cases split : cursor.ahead with
  | nil =>
      have stands : (cursor.ending eof).ahead = [eof] := Cursor.ending_nil split
      rw [bind_apply_error (accept?_apply_nil split),
        bind_apply_ok (accept?_apply_none stands (by simp [isEnd, sourceEnd]))]
      exact ⟨split, (rests _ stands).mono (Nat.le_refl _) (Nat.zero_le _)⟩
  | cons token rest =>
      have longSplit : (cursor.ending eof).ahead = token :: (rest ++ [eof]) :=
        Cursor.ending_split split
      cases accepted : accepts token.kind with
      | true =>
          rw [bind_apply_ok (accept?_apply_some split accepted),
            bind_apply_ok (accept?_apply_some longSplit accepted)]
          exact found token rest split accepted
      | false =>
          rw [bind_apply_ok (accept?_apply_none split accepted),
            bind_apply_ok (accept?_apply_none longSplit accepted)]
          exact missing

end Ends

/-! ## Parsers that rest at the end -/

namespace Rests

variable {eof : Token} {parser : Parser α}

theorem pure (a : α) : Rests eof (Pure.pure a : Parser α) :=
  fun _ stands => ⟨stands, Nat.le_refl _⟩

theorem bind {next : α → Parser β} (first : Rests eof parser) (second : ∀ a, Rests eof (next a)) :
    Rests eof (parser >>= next) := by
  intro cursor stands
  have arrives := first cursor stands
  rw [bind_apply]
  cases run : parser cursor with
  | ok a after =>
      rw [run] at arrives
      exact (second a after arrives.1).mono arrives.2 (Nat.le_refl _)
  | error stop after =>
      rw [run] at arrives
      cases stop <;> exact arrives

theorem reject (fault : Fault) : Rests eof (reject fault : Parser α) := by
  intro cursor stands
  rw [reject_apply stands]
  exact ⟨stands, cursor.weight_blaming_le eof fault⟩

/-- A stray sign of assignment is not the end. -/
theorem assignTo (target : Node) (position : Nat) (equal : Token) (value : Node) :
    Rests eof (assignTo target position equal value) := by
  intro cursor stands
  cases target
  case reference name => exact ⟨stands, Nat.le_refl _⟩
  all_goals
    refine ⟨stands, Nat.le_of_eq ?_⟩
    simp [Cursor.weight, endCount, faults, SyntaxError.isStray]

section End

variable (isEnd : eof.kind = .eof)

include isEnd

/-- A parser that glides cannot move at the end of the source. -/
theorem of_gliding (gliding : Gliding parser) : Rests eof parser := by
  intro cursor stands
  have stays (later : Cursor) (glides : cursor.Glides later) : later = cursor := by
    rcases glides.moves with same | ⟨⟨token, rest, split, inside⟩, _⟩
    · exact same
    · cases stands.symm.trans split
      exact absurd isEnd inside
  have ends := gliding cursor
  cases run : parser cursor with
  | ok a after =>
      rw [run] at ends
      rw [stays after ends]
      exact ⟨stands, Nat.le_refl _⟩
  | error stop after =>
      rw [run] at ends
      cases stop with
      | rejected =>
          obtain ⟨middle, glides, token, rest, fault, split, _, rfl⟩ := ends
          rw [stays middle glides] at split ⊢
          exact ⟨stands, cursor.weight_blaming_le token fault⟩
      | overNested | exhausted => trivial

/-- What comes of a token that may be there. -/
theorem accept {accepts : TokenKind → Bool} {next : Option Token → Parser β}
    (sourceEnd : accepts .eof = false) (missing : Rests eof (next none)) :
    Rests eof (accept? accepts >>= next) := by
  intro cursor stands
  rw [bind_apply_ok (accept?_apply_none stands (by simp [isEnd, sourceEnd]))]
  exact missing cursor stands

theorem expect {kind : TokenKind} (inside : kind ≠ .eof) (fault : Fault) :
    Rests eof (expect kind fault) :=
  accept isEnd (by simpa using inside.symm) (reject fault)

/-- A token that must follow a result. -/
theorem expectLast {kind : TokenKind} (inside : kind ≠ .eof) (fault : Fault) (a : α) :
    Rests eof (Grammar.expect kind fault >>= fun _ => Pure.pure a) :=
  (expect isEnd inside fault).bind fun _ => pure a

theorem sentence (sentence : Sentence) (node : Node) :
    Rests eof (sentenceEnd sentence >>= fun _ => Pure.pure node) := by
  rw [sentenceEnd, bind_assoc]
  exact expectLast isEnd (by simp) _ node

/-- No rule but that for expressions is tried at the end. -/
theorem statement (levels : Nat) : Rests eof (statement levels) := by
  cases levels with
  | zero => exact fun _ _ => trivial
  | succ levels =>
      exact accept isEnd rfl ((of_gliding isEnd (.expression levels)).bind fun _ =>
        sentence isEnd _ _)

theorem elseRest (nested : Parser Node) (condition thenBranch : Node) :
    Rests eof (elseRest nested condition thenBranch) :=
  accept isEnd rfl (pure _)

end End

end Rests

/-! ## Parsers that do the same up to the end -/

namespace Meets

variable {eof : Token} {slack : Nat} {parser : Parser α}

theorem pure (a : α) : Meets eof slack (Pure.pure a : Parser α) := fun _ => rfl

theorem overNested : Meets eof slack (throw .overNested : Parser α) := fun _ => rfl

theorem bind {next : α → Parser β} (first : Meets eof 0 parser)
    (second : ∀ a, Meets eof slack (next a)) (rests : ∀ a, Rests eof (next a)) :
    Meets eof slack (parser >>= next) :=
  fun cursor => (first cursor).bind (fun a after _ => second a after) rests

theorem reject (fault : Fault) : Meets eof slack (reject fault : Parser α) := by
  intro cursor
  cases split : cursor.ahead with
  | nil =>
      have stands : (cursor.ending eof).ahead = [eof] := Cursor.ending_nil split
      rw [reject_apply_nil split, reject_apply stands]
      exact ⟨split, stands, (cursor.ending eof).weight_blaming_le eof fault⟩
  | cons token rest =>
      rw [reject_apply split, reject_apply (Cursor.ending_split split)]
      exact rfl

section End

variable (isEnd : eof.kind = .eof)

include isEnd

/-- What comes of a token that may be there. -/
theorem accept {accepts : TokenKind → Bool} {next : Option Token → Parser β}
    (sourceEnd : accepts .eof = false) (found : ∀ token, Meets eof slack (next (some token)))
    (missing : Meets eof slack (next none)) (rests : Rests eof (next none)) :
    Meets eof slack (accept? accepts >>= next) :=
  fun cursor => .accept isEnd sourceEnd (fun token _ _ _ => found token _) (missing cursor) rests

theorem expect {kind : TokenKind} (inside : kind ≠ .eof) (fault : Fault) :
    Meets eof 0 (expect kind fault) :=
  accept isEnd (by simpa using inside.symm) pure (reject fault) (.reject fault)

/-- A token that must follow a result. -/
theorem expectLast {kind : TokenKind} (inside : kind ≠ .eof) (fault : Fault) (a : α) :
    Meets eof 0 (Grammar.expect kind fault >>= fun _ => Pure.pure a) :=
  (expect isEnd inside fault).bind (fun _ => pure a) fun _ => .pure a

/-! ### Expressions -/

section Expressions

variable {operand nested : Parser Node}

/-- A chain of operands may take as many rounds as there are tokens, and one more with
the end of the source. -/
theorem chain {level : Level} (inside : InSentence level.accepts) (gliding : Gliding operand)
    (advances : Advances operand) (operands : Meets eof 0 operand) {fuel fuel' : Nat} {left : Node}
    {operator : Token} {cursor : Cursor} (enough : cursor.ahead.length ≤ fuel)
    (enough' : cursor.ahead.length < fuel') :
    Extends eof 0 (chain level operand fuel left operator cursor)
      (chain level operand fuel' left operator (cursor.ending eof)) := by
  induction fuel generalizing fuel' left operator cursor with
  | zero =>
      have split : cursor.ahead = [] := List.eq_nil_of_length_eq_zero (Nat.le_zero.mp enough)
      exact ⟨split, Rests.of_gliding isEnd (.chain inside gliding fuel' left operator) _
        (Cursor.ending_nil split)⟩
  | succ fuel inductionHypothesis =>
      obtain ⟨fuel', rfl⟩ : ∃ k, fuel' = k + 1 := ⟨fuel' - 1, by omega⟩
      refine (operands cursor).bind (fun right middle run => ?_) fun right =>
        .accept isEnd inside.sourceEnd (.pure _)
      have shorter := advances cursor right middle run
      refine .accept isEnd inside.sourceEnd (fun next rest split _ => ?_) rfl (.pure _)
      rw [split, List.length_cons] at shorter
      exact inductionHypothesis (show rest.length ≤ fuel by omega)
        (show rest.length < fuel' by omega)

theorem continued {level : Level} (inside : InSentence level.accepts) (gliding : Gliding operand)
    (advances : Advances operand) (operands : Meets eof 0 operand) (left : Node) :
    Meets eof 0 (continued level operand left) := by
  refine fun cursor => .accept isEnd inside.sourceEnd (fun operator rest _ _ => ?_) rfl (.pure _)
  refine chain isEnd inside gliding advances operands (Nat.le_refl _) ?_
  simp [Cursor.ending]

theorem operations {levels : List Level} (inside : ∀ level ∈ levels, InSentence level.accepts)
    (gliding : Gliding operand) (orderly : Orderly operand) (advances : Advances operand)
    (operands : Meets eof 0 operand) : Meets eof 0 (operations operand levels) := by
  induction levels with
  | nil => exact operands
  | cons level tighter inductionHypothesis =>
      have inner (other : Level) (member : other ∈ tighter) := inside other (by simp [member])
      have sourceEnd (other : Level) (member : other ∈ tighter) := (inner other member).sourceEnd
      rw [Grammar.operations, leftAssociative_eq]
      exact (inductionHypothesis inner).bind
        (continued isEnd (inside level (by simp)) (.operations gliding inner)
          (.operations sourceEnd orderly advances) (inductionHypothesis inner))
        fun left => .accept isEnd (inside level (by simp)).sourceEnd (.pure left)

theorem groupRest (inner : Meets eof 0 nested) : Meets eof 0 (groupRest nested) :=
  inner.bind (fun _ => expectLast isEnd (by simp) _ _) fun _ => .expectLast isEnd (by simp) _ _

theorem atom (gliding : Gliding nested) (inner : Meets eof 0 nested) :
    Meets eof 0 (atom nested) := by
  intro cursor
  cases split : cursor.ahead with
  | nil =>
      rw [atom_apply_nil split]
      exact ⟨split, Rests.of_gliding isEnd (.atom gliding) _ (Cursor.ending_nil split)⟩
  | cons token rest =>
      have longSplit : (cursor.ending eof).ahead = token :: (rest ++ [eof]) :=
        Cursor.ending_split split
      rcases atomStart_cases token with ⟨value, constant⟩ | name | opening | other
      · rw [atom_apply_literal split constant, atom_apply_literal longSplit constant]
        exact rfl
      · rw [atom_apply_identifier split name, atom_apply_identifier longSplit name]
        exact rfl
      · rw [atom_apply_group split opening, atom_apply_group longSplit opening]
        exact groupRest isEnd inner _
      · rw [atom_apply_reject split other, atom_apply_reject longSplit other]
        exact reject _ cursor

omit isEnd in
theorem assignTo (target : Node) (position : Nat) (equal : Token) (value : Node) :
    Meets eof 0 (assignTo target position equal value) := by
  intro cursor
  cases target <;> exact rfl

theorem assignmentRest (inner : Meets eof 0 nested) (target : Node) :
    Meets eof 0 (assignmentRest nested target) := by
  intro cursor
  rw [Grammar.assignmentRest, get_bind_apply, get_bind_apply]
  exact .accept isEnd rfl (fun equal rest _ _ => inner.bind (fun value => assignTo target _ equal _)
    (fun value => .assignTo target _ equal _) _) rfl (.pure _)

theorem expressionOf (operandGliding : Gliding operand) (operandOrderly : Orderly operand)
    (advances : Advances operand) (operands : Meets eof 0 operand) (gliding : Gliding nested)
    (inner : Meets eof 0 nested) : Meets eof 0 (expressionOf operand nested) := by
  rw [expressionOf_eq]
  exact (operations isEnd (fun _ => Gliding.inSentence_level) operandGliding operandOrderly advances
    operands).bind (assignmentRest isEnd inner) fun target =>
      Rests.of_gliding isEnd (.assignmentRest gliding target)

theorem operandOf (operands : Meets eof 0 operand) (gliding : Gliding nested)
    (inner : Meets eof 0 nested) : Meets eof 0 (operandOf operand nested) :=
  accept isEnd rfl (fun _ => operands.bind (fun _ => pure _) fun _ => .pure _)
    (atom isEnd gliding inner) (Rests.of_gliding isEnd (.atom gliding))

end Expressions

theorem expression_and_operand (levels : Nat) :
    Meets eof 0 (expression levels) ∧ Meets eof 0 (operand levels) := by
  induction levels with
  | zero => exact ⟨overNested, overNested⟩
  | succ levels inductionHypothesis =>
      rcases inductionHypothesis with ⟨expressions, operands⟩
      obtain ⟨expressionGliding, operandGliding⟩ := Gliding.expression_and_operand levels
      exact ⟨expressionOf isEnd operandGliding (.operand levels) (.operand levels) operands
          expressionGliding expressions,
        operandOf isEnd operands expressionGliding expressions⟩

theorem expression (levels : Nat) : Meets eof 0 (expression levels) :=
  (expression_and_operand isEnd levels).1

/-! ### Recovery -/

/-- Recovery that runs out of tokens arrives at the end, which is a boundary. -/
theorem skipToBoundary {cursor : Cursor} {tokens : List Token} (ahead : cursor.ahead = tokens) :
    Extends eof 0 (skipToBoundary tokens cursor)
      (skipToBoundary (tokens ++ [eof]) (cursor.ending eof)) := by
  induction tokens generalizing cursor with
  | nil =>
      rw [List.nil_append, skipToBoundary_apply_boundary (isEnd ▸ atBoundary_eof _)]
      exact ⟨ahead, Cursor.ending_nil ahead, Nat.le_refl _⟩
  | cons token rest inductionHypothesis =>
      rw [List.cons_append]
      by_cases boundary : atBoundary cursor token.kind = true
      · have same : atBoundary (cursor.ending eof) token.kind = true := boundary
        rw [skipToBoundary_apply_boundary boundary, skipToBoundary_apply_boundary same]
        exact rfl
      · have same : ¬ atBoundary (cursor.ending eof) token.kind = true := boundary
        rw [skipToBoundary_apply_other ahead boundary,
          skipToBoundary_apply_other (Cursor.ending_split ahead) same]
        exact inductionHypothesis rfl

theorem recover (start : Nat) : Meets eof 0 (recover start) := by
  intro cursor
  cases split : cursor.ahead with
  | nil =>
      rw [recover_apply_end (Cursor.ending_nil split) isEnd, recover_apply_nil split]
      exact ⟨split, Cursor.ending_nil split, Nat.le_refl _⟩
  | cons token rest =>
      rw [recover_apply split, recover_apply (Cursor.ending_split split)]
      by_cases stuck : (cursor.position == start && token.kind != .eof) = true
      · have same : ((cursor.ending eof).position == start && token.kind != .eof) = true := stuck
        rw [if_pos stuck, if_pos same]
        exact skipToBoundary isEnd (show (cursor.after token rest).ahead = rest from rfl)
      · have same : ¬ ((cursor.ending eof).position == start && token.kind != .eof) = true := stuck
        rw [if_neg stuck, if_neg same]
        exact skipToBoundary isEnd split

/-- A declaration that rejects the end has blamed it. -/
theorem recovering {parser : Parser α} (inner : Meets eof 0 parser) (start : Nat) :
    Meets eof 1 (recovering start parser) := by
  intro cursor
  have ends := inner cursor
  cases run : parser cursor with
  | ok a after =>
      rw [run] at ends
      have same : parser (cursor.ending eof) = .ok a (after.ending eof) := ends
      rw [recovering_apply_ok run, recovering_apply_ok same]
      exact rfl
  | error stop after =>
      rw [run] at ends
      cases stop with
      | rejected =>
          have same : parser (cursor.ending eof) = .error .rejected (after.ending eof) := ends
          rw [recovering_apply_rejected run, recovering_apply_rejected same]
          exact (recover isEnd start after).bind (fun _ _ _ => rfl) fun _ => .pure _
      | overNested =>
          have same : parser (cursor.ending eof) = .error .overNested (after.ending eof) := ends
          rw [recovering_apply_error run (by simp), recovering_apply_error same (by simp)]
          exact rfl
      | exhausted =>
          obtain ⟨out, ends⟩ := ends
          rw [recovering_apply_error run (by simp)]
          refine ⟨out, ?_⟩
          cases longRun : parser (cursor.ending eof) with
          | ok a later =>
              rw [longRun] at ends
              rw [recovering_apply_ok longRun]
              exact ⟨ends.1, Nat.le_succ_of_le ends.2⟩
          | error stop later =>
              rw [longRun] at ends
              cases stop with
              | rejected =>
                  rw [recovering_apply_rejected longRun,
                    bind_apply_ok (recover_apply_end ends.1 isEnd start)]
                  exact ends
              | overNested | exhausted =>
                  rw [recovering_apply_error longRun (by simp)]
                  trivial

/-! ### Statements -/

section Statements

variable {expr nested : Parser Node}

theorem sentence (sentence : Sentence) (node : Node) :
    Meets eof 0 (sentenceEnd sentence >>= fun _ => Pure.pure node) := by
  rw [sentenceEnd, bind_assoc]
  exact expectLast isEnd (by simp) _ node

theorem sentenceOf (exprs : Meets eof 0 expr) (sentence : Sentence) (tree : Node → Node) :
    Meets eof 0
      (expr >>= fun node => sentenceEnd sentence >>= fun _ => Pure.pure (tree node)) :=
  exprs.bind (fun _ => Meets.sentence isEnd sentence _) fun _ => .sentence isEnd sentence _

theorem condition (guarded : Guarded) (gliding : Gliding expr) (exprs : Meets eof 0 expr) :
    Meets eof 0 (condition guarded expr) :=
  (expect isEnd (by simp) _).bind
    (fun _ => exprs.bind (fun _ => expectLast isEnd (by simp) _ _) fun _ =>
      .expectLast isEnd (by simp) _ _)
    fun _ => (Rests.of_gliding isEnd gliding).bind fun _ => .expectLast isEnd (by simp) _ _

theorem elseRest (inner : Meets eof 0 nested) (condition thenBranch : Node) :
    Meets eof 0 (elseRest nested condition thenBranch) :=
  accept isEnd rfl (fun _ => inner.bind (fun _ => pure _) fun _ => .pure _) (pure _) (.pure _)

theorem ifRest (gliding : Gliding expr) (exprs : Meets eof 0 expr) (rests : Rests eof nested)
    (inner : Meets eof 0 nested) : Meets eof 0 (ifRest expr nested) := by
  rw [ifRest_eq]
  exact (condition isEnd .branch gliding exprs).bind
    (fun condition => inner.bind (elseRest isEnd inner condition) fun _ => .elseRest isEnd _ _ _)
    fun condition => rests.bind fun _ => .elseRest isEnd _ _ _

theorem whileRest (gliding : Gliding expr) (exprs : Meets eof 0 expr) (rests : Rests eof nested)
    (inner : Meets eof 0 nested) : Meets eof 0 (whileRest expr nested) :=
  (condition isEnd .loop gliding exprs).bind
    (fun _ => inner.bind (fun _ => pure _) fun _ => .pure _) fun _ => rests.bind fun _ => .pure _

theorem varRest (exprs : Meets eof 0 expr) : Meets eof 0 (varRest expr) :=
  (expect isEnd (by simp) _).bind
    (fun name => accept isEnd rfl (fun _ => sentenceOf isEnd exprs _ (.varStmt name))
      (Meets.sentence isEnd _ _) (.sentence isEnd _ _))
    fun _ => .accept isEnd rfl (.sentence isEnd _ _)

theorem declarationOf (exprs : Meets eof 0 expr) (rests : Rests eof nested)
    (inner : Meets eof 0 nested) : Meets eof 1 (declarationOf expr nested) :=
  fun cursor => recovering isEnd
    (accept isEnd rfl (fun _ => varRest isEnd exprs) inner rests) cursor.position cursor

/-- A list of items may take as many rounds as there are tokens, and one more with the
end of the source. -/
theorem collect {ends : TokenKind → Bool} {item : Parser (Option α)} (sourceEnd : ends .eof = true)
    (proceeds : Proceeds ends item) (items : Meets eof 1 item) {fuel fuel' : Nat}
    {collected : List α} {cursor : Cursor} (enough : cursor.ahead.length ≤ fuel)
    (enough' : cursor.ahead.length < fuel') :
    Extends eof 1 (collect ends item fuel collected cursor)
      (collect ends item fuel' collected (cursor.ending eof)) := by
  have isLast : ends eof.kind = true := by rw [isEnd, sourceEnd]
  induction fuel generalizing fuel' collected cursor with
  | zero =>
      have split : cursor.ahead = [] := List.eq_nil_of_length_eq_zero (Nat.le_zero.mp enough)
      rw [collect_apply_nil split, collect_apply_ends (Cursor.ending_nil split) isLast]
      exact ⟨split, Cursor.ending_nil split, Nat.le_succ _⟩
  | succ fuel inductionHypothesis =>
      obtain ⟨fuel', rfl⟩ : ∃ k, fuel' = k + 1 := ⟨fuel' - 1, by omega⟩
      cases split : cursor.ahead with
      | nil =>
          rw [collect_apply_nil split, collect_apply_ends (Cursor.ending_nil split) isLast]
          exact ⟨split, Cursor.ending_nil split, Nat.le_succ _⟩
      | cons token rest =>
          have longSplit : (cursor.ending eof).ahead = token :: (rest ++ [eof]) :=
            Cursor.ending_split split
          cases isItem : ends token.kind with
          | true =>
              rw [collect_apply_ends split isItem, collect_apply_ends longSplit isItem]
              exact rfl
          | false =>
              rw [collect_apply_item split isItem, collect_apply_item longSplit isItem]
              refine (items cursor).followed (fun found middle run => ?_)
                fun found stopped later stands less => ?_
              · have shorter := proceeds cursor token rest found middle split isItem run
                exact inductionHypothesis (by omega) (by omega)
              · rw [collect_apply_ends stands isLast]
                exact ⟨stands, less⟩

theorem many {ends : TokenKind → Bool} {item : Parser (Option α)} (sourceEnd : ends .eof = true)
    (proceeds : Proceeds ends item) (items : Meets eof 1 item) : Meets eof 1 (many ends item) :=
  fun _ => collect isEnd sourceEnd proceeds items (Nat.le_refl _) (by simp [Cursor.ending])

/-- A block that is open at the end is closed there, and the end is blamed for it. -/
theorem blockRest (limit : Nat) (items : Meets eof 1 (declaration limit)) :
    Meets eof 0 (blockRest (declaration limit)) := by
  intro cursor
  let opened : Cursor := { cursor with openBlocks := cursor.openBlocks + 1 }
  have proceeds : Proceeds endsBlock (declaration limit) := proceeds_declaration rfl limit
  have ends := many isEnd rfl proceeds items opened
  have closes := Balanced.many endsBlock (.declaration limit) (opened.ending eof)
  change Extends eof 0 ((Grammar.many endsBlock (declaration limit) >>= _) opened)
    ((Grammar.many endsBlock (declaration limit) >>= _) (opened.ending eof))
  rw [bind_apply, bind_apply]
  cases run : Grammar.many endsBlock (declaration limit) opened with
  | ok body middle =>
      rw [run] at ends
      rw [show Grammar.many endsBlock (declaration limit) (opened.ending eof) = _ from ends]
      let closed : Cursor := { middle with openBlocks := middle.openBlocks - 1 }
      exact expectLast isEnd (by simp) .blockClosing (Node.blockStmt body) closed
  | error stop middle =>
      rw [run] at ends
      cases stop with
      | rejected | overNested =>
          rw [show Grammar.many endsBlock (declaration limit) (opened.ending eof) = _ from ends]
          exact rfl
      | exhausted =>
          obtain ⟨out, ends⟩ := ends
          refine ⟨out, ?_⟩
          cases longRun : Grammar.many endsBlock (declaration limit) (opened.ending eof) with
          | error stop later =>
              rw [longRun] at ends
              cases stop with
              | rejected => exact ends
              | overNested | exhausted => trivial
          | ok body later =>
              rw [longRun] at ends closes
              obtain ⟨stands, less⟩ := ends
              have openLater : later.openBlocks = cursor.openBlocks + 1 := closes
              let closed : Cursor := { later with openBlocks := later.openBlocks - 1 }
              have closedStands : closed.ahead = [eof] := stands
              have blamed := closed.weight_blaming_le eof .blockClosing
              have weight : closed.weight + 1 = later.weight := by
                simp only [closed, Cursor.weight, openLater]
                omega
              change Arrives eof 0 middle
                ((Grammar.expect (.symbol .rightBrace) .blockClosing >>= _) closed)
              rw [bind_apply_error (expect_apply_ne closedStands (by simp [isEnd]) _)]
              exact ⟨stands, by omega⟩

theorem statement (levels : Nat) : Meets eof 0 (statement levels) := by
  induction levels with
  | zero => exact overNested
  | succ levels inductionHypothesis =>
      have gliding := Gliding.expression levels
      have exprs := expression isEnd levels
      have rests := Rests.statement isEnd levels
      refine accept isEnd rfl (fun lead => ?_) (sentenceOf isEnd exprs .expression .exprStmt)
        ((Rests.of_gliding isEnd gliding).bind fun _ => .sentence isEnd _ _)
      dsimp only
      split
      · exact sentenceOf isEnd exprs .value .printStmt
      · exact ifRest isEnd gliding exprs rests inductionHypothesis
      · exact whileRest isEnd gliding exprs rests inductionHypothesis
      · exact blockRest isEnd levels (declarationOf isEnd exprs rests inductionHypothesis)

theorem declaration (levels : Nat) : Meets eof 1 (declaration levels) :=
  declarationOf isEnd (expression isEnd levels) (.statement isEnd levels) (statement isEnd levels)

end Statements

end End

end Meets

end TreeWalker.Grammar
