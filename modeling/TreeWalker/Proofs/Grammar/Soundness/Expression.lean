import TreeWalker.Proofs.Grammar.Derivation
import TreeWalker.Proofs.Grammar.Verdict

/-!
# Verdicts on expressions

The parsers of operands and of expressions come to derivations of the grammar,
however deep the nesting is allowed to be.  An operand is complete where it
ends; an operation ends where no operator of its levels follows, and an
expression where no `=` follows either.
-/

namespace TreeWalker.Grammar

/-- A token of the given kind, without any text. -/
def blankToken (kind : TokenKind) : Token :=
  ⟨kind, "", .nil, 1⟩

/-- Operands may stand for operations. -/
theorem Phrase.of_operand {node : Node} {word strays : List Token}
    (phrase : Phrase .operand node word strays) (levels : List Level) :
    Phrase (.operation levels) node word strays := by
  induction levels with
  | nil => exact .tightest phrase
  | cons level levels inductionHypothesis => exact .tighter inductionHypothesis

/-- Something of each form that begins no longer word. -/
theorem Phrase.exists_operand :
    Phrase .operand (.literal .nil) [blankToken (.keyword .kwNil)] [] :=
  .literal rfl

theorem Phrase.exists_expression :
    Phrase .expression (.literal .nil) [blankToken (.keyword .kwNil)] [] :=
  .plain (Phrase.exists_operand.of_operand Level.all)

/-- What is complete goes on with no token. -/
def complete (_ : Node) (_ : TokenKind) : Prop :=
  False

/-- An operation goes on with an operator of its levels. -/
def goesOnAt (levels : List Level) (_ : Node) (kind : TokenKind) : Prop :=
  ∃ level ∈ levels, level.accepts kind = true

/-- An expression goes on with an operator or with an `=`. -/
def expressionGoesOn (_ : Node) (kind : TokenKind) : Prop :=
  kind = .symbol .equal ∨ ∃ level ∈ Level.all, level.accepts kind = true

/-- The verdict of a parser on every token list that ends a source. -/
def Decides {α : Type} (parser : Parser α) (language : Language α)
    (goesOn : α → TokenKind → Prop) : Prop :=
  ∀ ahead, Ended ahead → Verdict parser language goesOn ahead

/-! ## Operations -/

section Operations

variable {level : Level} {levels : List Level} {operand : Parser Node}

/-- The rest of a chain makes the part before it to a longer operation. -/
theorem decides_continued (sourceEnd : level.accepts .eof = false) (orderly : Orderly operand)
    (advances : Advances operand) (decides : Decides operand (Phrase (.operation levels))
      (goesOnAt levels)) (bound : Nat) (left : Node) (word strays : List Token)
    (leftPhrase : Phrase (.operation (level :: levels)) left word strays) (token : Token)
    (rest : List Token) (ended : Ended (token :: rest)) (short : (token :: rest).length ≤ bound)
    (stopped : ¬ goesOnAt levels left token.kind) :
    Verdict (continued level operand left)
      (Language.after (Phrase (.operation (level :: levels))) word strays)
      (goesOnAt (level :: levels)) (token :: rest) := by
  induction bound generalizing left word strays token rest with
  | zero => simp at short
  | succ bound inductionHypothesis =>
      cases accepted : level.accepts token.kind with
      | false =>
          refine Verdict.look (Verdict.pure (a := left) ?_ ?_ ended)
            (fun cursor rest' split _ => continued_apply_none split accepted) ended
          · simpa [Language.after] using leftPhrase
          · rintro ⟨other, member, accepts⟩
            rcases List.mem_cons.mp member with rfl | member
            · simp [accepted] at accepts
            · exact stopped ⟨other, member, accepts⟩
      | true =>
          have restEnded : Ended rest :=
            ended.tail fun isEnd => by simp [isEnd, sourceEnd] at accepted
          refine Verdict.pass ?_ (fun cursor rest' split ended' =>
            continued_apply_some sourceEnd orderly advances split accepted ended') restEnded
          rw [Language.after_after]
          refine (decides rest restEnded).bind ?_ ?_ ?_
          · intro right rightWord rightStrays rightPhrase
            refine ⟨level.node left token right, [], rightStrays, ?_⟩
            simpa [Language.after] using leftPhrase.apply accepted rightPhrase
          · intro right
            exact Orderly.continued sourceEnd orderly _
          · intro right rightWord rightStrays next tail split rightPhrase rightStopped tailEnded
            rw [Language.after_after]
            have longer := leftPhrase.apply accepted rightPhrase
            have shorter : (next :: tail).length ≤ bound := by
              have length := congrArg List.length split
              simp only [List.length_append, List.length_cons] at length short ⊢
              omega
            have further := inductionHypothesis _ _ _ longer next tail tailEnded shorter
              rightStopped
            simpa using further

theorem decides_leftAssociative (sourceEnd : level.accepts .eof = false)
    (orderly : Orderly operand) (advances : Advances operand)
    (decides : Decides operand (Phrase (.operation levels)) (goesOnAt levels)) :
    Decides (leftAssociative level operand) (Phrase (.operation (level :: levels)))
      (goesOnAt (level :: levels)) := by
  intro ahead ended
  rw [leftAssociative_eq]
  refine (decides ahead ended).bind ?_ ?_ ?_
  · intro left word strays phrase
    exact Language.Viable.of_member phrase.tighter
  · intro left
    exact Orderly.continued sourceEnd orderly left
  · intro left word strays token rest _ phrase stopped restEnded
    exact decides_continued sourceEnd orderly advances decides _ left word strays phrase.tighter
      token rest restEnded (Nat.le_refl _) stopped

theorem decides_operations (orderly : Orderly operand) (advances : Advances operand)
    (decides : Decides operand (Phrase .operand) complete)
    (sourceEnd : ∀ level ∈ levels, level.accepts .eof = false) :
    Decides (operations operand levels) (Phrase (.operation levels)) (goesOnAt levels) := by
  induction levels with
  | nil =>
      intro ahead ended
      exact (decides ahead ended).mono (fun _ _ _ phrase => phrase.tightest)
        (fun _ _ _ => by simp [goesOnAt])
  | cons level levels inductionHypothesis =>
      have inside : ∀ level ∈ levels, level.accepts .eof = false := fun level member =>
        sourceEnd level (List.mem_cons_of_mem _ member)
      exact decides_leftAssociative (sourceEnd level List.mem_cons_self)
        (Orderly.operations inside orderly) (Advances.operations inside orderly advances)
        (inductionHypothesis inside)

end Operations

/-! ## Operands and expressions -/

section Nested

variable {operand nested : Parser Node}

/-- A result after the last token of a word. -/
theorem Verdict.finish {α : Type} {a : α} {language : Language α} {goesOn : α → TokenKind → Prop}
    {rest : List Token} (ended : Ended rest) (member : language a [] [])
    (stops : ∀ kind, ¬ goesOn a kind) : Verdict (Pure.pure a) language goesOn rest := by
  rcases ended.exists_cons with ⟨token, tail, rfl⟩
  exact Verdict.pure member (stops token.kind) ended

/-- What follows the parenthesis that opens a group. -/
theorem verdict_groupRest (decides : Decides nested (Phrase .expression) expressionGoesOn)
    {opening : Token} (isOpening : opening.kind = .symbol .leftParen) {rest : List Token}
    (ended : Ended rest) :
    Verdict (groupRest nested) (Language.after (Phrase .operand) [opening] []) complete rest := by
  have closes {inner : Node} {word strays : List Token} {closing : Token}
      (phrase : Phrase .expression inner word strays)
      (isClosing : closing.kind = .symbol .rightParen) :
      Phrase .operand (.grouping inner) (opening :: (word ++ [closing])) strays :=
    .grouping (.parenthesized isOpening phrase isClosing)
  refine (decides rest ended).bind ?_ ?_ ?_
  · intro inner word strays phrase
    exact ⟨_, [blankToken (.symbol .rightParen)], _, closes phrase rfl⟩
  · intro inner
    exact (Orderly.expect (by simp) _).bind fun _ => Orderly.pure _
  · intro inner word strays token tail _ phrase _ tailEnded
    refine Verdict.expect (by simp) (by simp) (by simp) ?_ tailEnded ?_
    · refine ⟨.grouping inner, [blankToken (.symbol .rightParen)], [], ?_⟩
      simpa [Language.after] using closes phrase rfl
    · intro closing final _ isClosing finalEnded
      refine Verdict.finish finalEnded ?_ (fun _ => id)
      simpa [Language.after] using closes phrase isClosing

theorem decides_atom (decides : Decides nested (Phrase .expression) expressionGoesOn) :
    Decides (atom nested) (Phrase .operand) complete := by
  intro ahead ended
  rcases ended.exists_cons with ⟨token, rest, rfl⟩
  rcases atomStart_cases token with ⟨value, constant⟩ | name | opening | other
  · have restEnded : Ended rest :=
      ended.tail fun isEnd => by simp [literalValue?, isEnd] at constant
    exact (Verdict.finish restEnded (Phrase.literal constant) fun _ => id).pass
      (fun cursor rest' split _ => atom_apply_literal split constant) restEnded
  · have restEnded : Ended rest := ended.tail (by simp [name])
    exact (Verdict.finish restEnded (Phrase.reference name) fun _ => id).pass
      (fun cursor rest' split _ => atom_apply_identifier split name) restEnded
  · have restEnded : Ended rest := ended.tail (by simp [opening])
    exact (verdict_groupRest decides opening restEnded).pass
      (fun cursor rest' split _ => atom_apply_group split opening) restEnded
  · refine (Verdict.reject ?_ (by simp) (by simp)).look
      (fun cursor rest' split _ => atom_apply_reject split other) ended
    exact ⟨_, _, _, Phrase.exists_operand⟩

theorem decides_operandOf
    (operandDecides : Decides operand (Phrase .operand) complete)
    (nestedDecides : Decides nested (Phrase .expression) expressionGoesOn) :
    Decides (operandOf operand nested) (Phrase .operand) complete := by
  intro ahead ended
  refine Verdict.accept rfl ended ?_ ?_
  · intro operator rest _ isOperator restEnded
    refine (operandDecides rest restEnded).bind ?_ (fun _ => Orderly.pure _) ?_
    · intro node word strays phrase
      exact Language.Viable.of_member (phrase.unary isOperator)
    · intro node word strays token tail _ phrase _ tailEnded
      refine Verdict.finish tailEnded ?_ (fun _ => id)
      simpa [Language.after] using phrase.unary isOperator
  · intro token rest same _
    exact decides_atom nestedDecides _ (same ▸ ended)

theorem takes_assignTo (target : Node) (position : Nat) (equal : Token) (value : Node)
    (rest : List Token) :
    Takes (assignTo target position equal value) (assigned target value) []
      (strayFor target equal) rest := by
  cases target
  case reference name => exact Takes.pure _ rest
  all_goals
    intro cursor split
    exact ⟨_, rfl, split, rfl, [⟨position, equal, .assignmentTarget⟩], rfl, rfl⟩

theorem decides_expressionOf (operandOrderly : Orderly operand) (advances : Advances operand)
    (nestedOrderly : Orderly nested) (operandDecides : Decides operand (Phrase .operand) complete)
    (nestedDecides : Decides nested (Phrase .expression) expressionGoesOn) :
    Decides (expressionOf operand nested) (Phrase .expression) expressionGoesOn := by
  have sourceEnd : ∀ level ∈ Level.all, level.accepts .eof = false := fun _ member =>
    Level.accepts_eof member
  intro ahead ended
  refine (decides_operations operandOrderly advances operandDecides sourceEnd ahead ended).bind
    ?_ ?_ ?_
  · intro target word strays phrase
    exact Language.Viable.of_member phrase.plain
  · exact Orderly.assignmentRest nestedOrderly
  · intro target word strays token rest _ phrase stopped restEnded
    by_cases isEqual : token.kind = .symbol .equal
    · have tailEnded : Ended rest := restEnded.tail (by simp [isEqual])
      let assignment : Parser Node := fun cursor =>
        (nested >>= fun value => assignTo target (cursor.position - 1) token value) cursor
      have verdict : Verdict assignment
          (Language.after (Language.after (Phrase .expression) word strays) [token] [])
          expressionGoesOn rest := by
        refine Verdict.adapt (fun _ => rfl) (fun _ _ => Orderly.assignTo _ _ _ _)
          (fun _ _ _ => takes_assignTo _ _ _ _ _) ?_ (fun _ _ => id)
          (nestedDecides rest tailEnded)
        intro value valueWord valueStrays valuePhrase
        simpa [Language.after] using phrase.assign isEqual valuePhrase
      exact verdict.pass (fun cursor rest' split _ => assignmentRest_apply_equal split isEqual)
        tailEnded
    · refine Verdict.look (Verdict.pure (a := target) ?_ ?_ restEnded)
        (fun cursor rest' split _ => assignmentRest_apply_other split isEqual) restEnded
      · simpa [Language.after] using phrase.plain
      · rintro (same | continues)
        · exact isEqual same
        · exact stopped continues

end Nested

theorem decides_expression_and_operand (levels : Nat) :
    Decides (expression levels) (Phrase .expression) expressionGoesOn ∧
      Decides (operand levels) (Phrase .operand) complete := by
  induction levels with
  | zero => exact ⟨fun _ _ => Verdict.overNested, fun _ _ => Verdict.overNested⟩
  | succ levels inductionHypothesis =>
      rcases inductionHypothesis with ⟨expression, operand⟩
      exact ⟨decides_expressionOf (Orderly.operand levels) (Advances.operand levels)
        (Orderly.expression levels) operand expression,
        decides_operandOf operand expression⟩

theorem decides_expression (levels : Nat) :
    Decides (expression levels) (Phrase .expression) expressionGoesOn :=
  (decides_expression_and_operand levels).1

end TreeWalker.Grammar
