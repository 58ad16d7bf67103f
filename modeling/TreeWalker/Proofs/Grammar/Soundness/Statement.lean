import TreeWalker.Proofs.Grammar.Soundness.Expression

/-!
# Verdicts on statements and programs

Recovery does not matter to the first token that is blamed: a declaration that
is rejected has blamed a token before, and what is noted later does not change
what was noted first.  So the verdicts on statements are put together as those
on expressions are.

A statement is complete where it ends, unless it ends in an `if` that could
still take an `else`, and then no `else` follows.
-/

namespace TreeWalker.Grammar

/-- A statement goes on with an `else` if it ends in an open `if`. -/
def statementGoesOn (node : Node) (kind : TokenKind) : Prop :=
  node.endsOpen = true ∧ kind = .keyword .kwElse

/-- Statements are never missing. -/
theorem Clause.ne_absent {part : Part} {node : Node} {word strays : List Token}
    (clause : Clause part node word strays) : node ≠ .absent := by
  induction clause with
  | statement _ inductionHypothesis => exact inductionHypothesis
  | _ => simp

theorem endsOpen_ifElse {condition thenBranch elseBranch : Node} (present : elseBranch ≠ .absent) :
    (Node.ifStmt condition thenBranch elseBranch).endsOpen = elseBranch.endsOpen := by
  cases elseBranch with
  | absent => contradiction
  | _ => rfl

/-- An expression statement that begins no longer word. -/
theorem Clause.exists_statement :
    Clause .statement (.exprStmt (.literal .nil))
      [blankToken (.keyword .kwNil), blankToken (.symbol .semicolon)] [] :=
  .expression Phrase.exists_expression rfl

/-- A body may be followed by a declaration. -/
theorem Clause.append_declaration {nodes : List Node} {node : Node}
    {word word' strays strays' : List Token} (body : Clause .body (.blockStmt nodes) word strays)
    (declaration : Clause .declaration node word' strays') :
    Clause .body (.blockStmt (nodes ++ [node])) (word ++ word') (strays ++ strays') := by
  induction nodes generalizing word strays with
  | nil =>
      cases body
      simpa using Clause.item declaration .empty
  | cons first nodes inductionHypothesis =>
      cases body with
      | item clause rest => simpa using Clause.item clause (inductionHypothesis rest)

/-! ## Sentences -/

section Sentences

variable {expr nested : Parser Node}

theorem Verdict.sentenceEnd {sentence : Sentence} {node : Node} {language : Language Node}
    {goesOn : Node → TokenKind → Prop} {ahead : List Token} (ended : Ended ahead)
    (member : ∀ semicolon : Token, semicolon.kind = .symbol .semicolon →
      language node [semicolon] [])
    (stops : ∀ kind, ¬ goesOn node kind) :
    Verdict (Grammar.sentenceEnd sentence >>= fun _ => Pure.pure node) language goesOn ahead := by
  rw [Grammar.sentenceEnd, bind_assoc]
  refine Verdict.expect (by simp) (by simp) (by simp) ?_ ended ?_
  · exact ⟨node, [blankToken (.symbol .semicolon)], [], member _ rfl⟩
  · intro semicolon rest _ isSemicolon restEnded
    rw [pure_bind]
    exact Verdict.finish restEnded (member semicolon isSemicolon) stops

/-- A parser of an expression and the semicolon that ends the sentence. -/
theorem verdict_sentence (decides : Decides expr (Phrase .expression) expressionGoesOn)
    {sentence : Sentence} {tree : Node → Node} {language : Language Node} {ahead : List Token}
    (ended : Ended ahead)
    (member : ∀ node word strays (semicolon : Token), Phrase .expression node word strays →
      semicolon.kind = .symbol .semicolon → language (tree node) (word ++ [semicolon]) strays)
    (stops : ∀ node kind, ¬ statementGoesOn (tree node) kind) :
    Verdict (expr >>= fun node => Grammar.sentenceEnd sentence >>= fun _ => Pure.pure (tree node))
      language statementGoesOn ahead := by
  refine (decides ahead ended).bind ?_ ?_ ?_
  · intro node word strays phrase
    exact ⟨_, [blankToken (.symbol .semicolon)], _, member node word strays _ phrase rfl⟩
  · intro node
    exact (Orderly.sentenceEnd sentence).bind fun _ => Orderly.pure _
  · intro node word strays token rest _ phrase _ restEnded
    refine Verdict.sentenceEnd restEnded (fun semicolon isSemicolon => ?_) (stops node)
    simpa [Language.after] using member node word strays semicolon phrase isSemicolon

theorem decides_condition (decides : Decides expr (Phrase .expression) expressionGoesOn)
    (guarded : Guarded) :
    Decides (condition guarded expr) (Phrase .parenthesized) complete := by
  have orderly (node : Node) : Orderly (expect (.symbol .rightParen) (.conditionClosing guarded)
      >>= fun _ => (Pure.pure node : Parser Node)) :=
    (Orderly.expect (by simp) _).bind fun _ => Orderly.pure _
  intro ahead ended
  refine Verdict.expect (by simp) (by simp) (by simp) ?_ ended ?_
  · exact ⟨_, blankToken (.symbol .leftParen) :: (_ ++ [blankToken (.symbol .rightParen)]), _,
      Phrase.parenthesized rfl Phrase.exists_expression rfl⟩
  · intro opening rest _ isOpening restEnded
    refine (decides rest restEnded).bind ?_ orderly ?_
    · intro node word strays phrase
      exact ⟨_, [blankToken (.symbol .rightParen)], _, phrase.parenthesized isOpening rfl⟩
    · intro node word strays token tail _ phrase _ tailEnded
      refine Verdict.expect (by simp) (by simp) (by simp) ?_ tailEnded ?_
      · refine ⟨node, [blankToken (.symbol .rightParen)], [], ?_⟩
        have closed : Phrase .parenthesized node
            (opening :: (word ++ [blankToken (.symbol .rightParen)])) strays :=
          phrase.parenthesized isOpening rfl
        simpa [Language.after] using closed
      · intro closing final _ isClosing finalEnded
        refine Verdict.finish finalEnded ?_ (fun _ => id)
        simpa [Language.after] using phrase.parenthesized isOpening isClosing

theorem verdict_printRest (decides : Decides expr (Phrase .expression) expressionGoesOn)
    {lead : Token} (isLead : lead.kind = .keyword .kwPrint) {rest : List Token}
    (ended : Ended rest) :
    Verdict (printRest expr) (Language.after (Clause .statement) [lead] []) statementGoesOn
      rest :=
  verdict_sentence decides ended
    (fun _ _ _ _ phrase isSemicolon => Clause.print isLead phrase isSemicolon)
    (fun _ _ => by simp [statementGoesOn, Node.endsOpen])

theorem decides_exprSentence (decides : Decides expr (Phrase .expression) expressionGoesOn) :
    Decides (exprSentence expr) (Clause .statement) statementGoesOn := fun _ ended =>
  verdict_sentence decides ended
    (fun _ _ _ _ phrase isSemicolon => Clause.expression phrase isSemicolon)
    (fun _ _ => by simp [statementGoesOn, Node.endsOpen])

theorem verdict_varRest (decides : Decides expr (Phrase .expression) expressionGoesOn)
    {lead : Token} (isLead : lead.kind = .keyword .kwVar) {rest : List Token}
    (ended : Ended rest) :
    Verdict (varRest expr) (Language.after (Clause .declaration) [lead] []) statementGoesOn
      rest := by
  refine Verdict.expect (by simp) (by simp) (by simp) ?_ ended ?_
  · exact ⟨_, [blankToken .identifier, blankToken (.symbol .semicolon)], [],
      Clause.var isLead rfl rfl⟩
  · intro name tail _ isName tailEnded
    rw [Language.after_after]
    refine Verdict.accept rfl tailEnded ?_ ?_
    · intro equal final _ isEqual finalEnded
      rw [Language.after_after]
      refine verdict_sentence decides finalEnded ?_ ?_
      · intro initializer word strays semicolon phrase isSemicolon
        exact Clause.varInit isLead isName (by simpa using isEqual) phrase isSemicolon
      · exact fun _ _ => by simp [statementGoesOn, Node.endsOpen]
    · intro token final same _
      refine Verdict.sentenceEnd (same ▸ tailEnded) ?_ ?_
      · intro semicolon isSemicolon
        exact Clause.var isLead isName isSemicolon
      · exact fun _ => by simp [statementGoesOn, Node.endsOpen]

/-! ## Branches and loops -/

theorem verdict_ifRest (exprDecides : Decides expr (Phrase .expression) expressionGoesOn)
    (nestedOrderly : Orderly nested)
    (nestedDecides : Decides nested (Clause .statement) statementGoesOn)
    {lead : Token} (isLead : lead.kind = .keyword .kwIf) {rest : List Token}
    (ended : Ended rest) :
    Verdict (ifRest expr nested) (Language.after (Clause .statement) [lead] []) statementGoesOn
      rest := by
  rw [ifRest_eq]
  refine (decides_condition exprDecides .branch rest ended).bind ?_ ?_ ?_
  · intro condition word strays phrase
    have member := Clause.ifThen isLead phrase Clause.exists_statement
    exact ⟨_, _, _, by simpa [Language.after] using member⟩
  · intro condition
    exact nestedOrderly.bind fun thenBranch => Orderly.elseRest nestedOrderly _ _
  · intro condition conditionWord conditionStrays token tail _ phrase _ tailEnded
    rw [Language.after_after]
    refine (nestedDecides _ tailEnded).bind ?_ ?_ ?_
    · intro thenBranch word strays clause
      exact Language.Viable.of_member (Clause.ifThen isLead phrase clause)
    · intro thenBranch
      exact Orderly.elseRest nestedOrderly _ _
    · intro thenBranch thenWord thenStrays next others _ clause stopped othersEnded
      have short := Clause.ifThen isLead phrase clause
      rw [Language.after_after]
      refine Verdict.accept rfl othersEnded ?_ ?_
      · intro middle final same isElse finalEnded
        rcases List.cons.inj same with ⟨rfl, rfl⟩
        have isElse : next.kind = .keyword .kwElse := by simpa using isElse
        have closed : thenBranch.endsOpen = false := by
          simpa [statementGoesOn, isElse] using stopped
        have long {elseBranch : Node} {word strays : List Token}
            (elseClause : Clause .statement elseBranch word strays) :=
          Clause.ifElse isLead phrase clause closed isElse elseClause
        rw [Language.after_after]
        refine (nestedDecides _ finalEnded).bind ?_ (fun _ => Orderly.pure _) ?_
        · intro elseBranch word strays elseClause
          refine ⟨.ifStmt condition thenBranch elseBranch, [], strays, ?_⟩
          simpa [Language.after] using long elseClause
        · intro elseBranch word strays last final' _ elseClause elseStopped final'Ended
          refine Verdict.pure ?_ ?_ final'Ended
          · simpa [Language.after] using long elseClause
          · rw [statementGoesOn, endsOpen_ifElse elseClause.ne_absent]
            exact elseStopped
      · intro token' final same refused
        rcases List.cons.inj same with ⟨rfl, rfl⟩
        refine Verdict.pure ?_ ?_ othersEnded
        · simpa [Language.after] using short
        · rintro ⟨_, isElse⟩
          simp [isElse] at refused

theorem verdict_whileRest (exprDecides : Decides expr (Phrase .expression) expressionGoesOn)
    (nestedOrderly : Orderly nested)
    (nestedDecides : Decides nested (Clause .statement) statementGoesOn)
    {lead : Token} (isLead : lead.kind = .keyword .kwWhile) {rest : List Token}
    (ended : Ended rest) :
    Verdict (whileRest expr nested) (Language.after (Clause .statement) [lead] [])
      statementGoesOn rest := by
  refine (decides_condition exprDecides .loop rest ended).bind ?_ ?_ ?_
  · intro condition word strays phrase
    have member := Clause.whileDo isLead phrase Clause.exists_statement
    exact ⟨_, _, _, by simpa [Language.after] using member⟩
  · intro condition
    exact nestedOrderly.bind fun _ => Orderly.pure _
  · intro condition conditionWord conditionStrays token tail _ phrase _ tailEnded
    rw [Language.after_after]
    refine (nestedDecides _ tailEnded).bind ?_ (fun _ => Orderly.pure _) ?_
    · intro body word strays clause
      exact Language.Viable.of_member (Clause.whileDo isLead phrase clause)
    · intro body word strays next others _ clause stopped othersEnded
      refine Verdict.pure ?_ stopped othersEnded
      simpa [Language.after] using Clause.whileDo isLead phrase clause

end Sentences

end TreeWalker.Grammar
