import TreeWalker.Proofs.Grammar.Soundness.Statement

/-!
# Verdicts on blocks and programs

A block and a program are lists of declarations.  Each declaration that is taken
makes the list before it longer, and a declaration that is blamed is blamed in
the block and in the program that it stands in, since recovery notes nothing
that comes first.
-/

namespace TreeWalker.Grammar

/-- The declarations among what may come to nothing. -/
def Found (found : Option Node) (word strays : List Token) : Prop :=
  ∃ node, found = some node ∧ Clause .declaration node word strays

/-- What was found goes on as the statement does. -/
def foundGoesOn (found : Option Node) (kind : TokenKind) : Prop :=
  ∃ node, found = some node ∧ statementGoesOn node kind

/-- The bodies of blocks and programs. -/
def Body (nodes : List Node) (word strays : List Token) : Prop :=
  Clause .body (.blockStmt nodes) word strays

/-- A body goes on unless a token that ends it follows. -/
def bodyGoesOn (ends : TokenKind → Bool) (_ : List Node) (kind : TokenKind) : Prop :=
  ends kind = false

theorem Clause.word_ne_nil {part : Part} {node : Node} {word strays : List Token}
    (clause : Clause part node word strays) (isOne : part ≠ .body) : word ≠ [] := by
  cases clause with
  | item => contradiction
  | empty => contradiction
  | statement clause => cases clause <;> simp
  | _ => simp

/-! ## Bodies -/

section Bodies

variable {ends : TokenKind → Bool} {item : Parser (Option Node)}

/-- The items that follow make the body before them to a longer body. -/
theorem verdict_collectAll (orderly : Orderly item) (proceeds : Proceeds ends item)
    (decides : Decides item Found foundGoesOn) (bound : Nat) (collected : List Node)
    (word strays ahead : List Token) (body : Body collected.reverse word strays)
    (ended : Ended ahead) (short : ahead.length ≤ bound) :
    Verdict (collectAll ends item collected) (Language.after Body word strays) (bodyGoesOn ends)
      ahead := by
  induction bound generalizing collected word strays ahead with
  | zero =>
      have nonempty := ended.length_pos
      omega
  | succ bound inductionHypothesis =>
      rcases ended.exists_cons with ⟨token, rest, rfl⟩
      cases isEnd : ends token.kind with
      | true =>
          refine Verdict.look (Verdict.pure (a := collected.reverse) ?_ ?_ ended)
            (fun cursor rest' split _ => collectAll_apply_ends split isEnd) ended
          · simpa [Language.after] using body
          · simp [bodyGoesOn, isEnd]
      | false =>
          refine Verdict.look (Verdict.bind (decides _ ended) ?_ ?_ ?_)
            (fun cursor rest' split restEnded => collectAll_apply_item orderly proceeds split isEnd
              (split ▸ restEnded)) ended
          · rintro found itemWord itemStrays ⟨node, rfl, clause⟩
            refine ⟨collected.reverse ++ [node], [], itemStrays, ?_⟩
            simpa [Language.after, Body] using Clause.append_declaration body clause
          · intro found
            exact Orderly.collectAll ends orderly _
          · rintro found itemWord itemStrays next tail split ⟨node, rfl, clause⟩ _ tailEnded
            rw [Language.after_after]
            refine inductionHypothesis _ _ _ _ ?_ tailEnded ?_
            · simpa [Body] using Clause.append_declaration body clause
            · have nonempty := List.length_pos_iff.mpr (clause.word_ne_nil (by simp))
              have length := congrArg List.length split
              simp only [List.length_append, List.length_cons] at length short ⊢
              omega

theorem decides_many (orderly : Orderly item) (proceeds : Proceeds ends item)
    (decides : Decides item Found foundGoesOn) :
    Decides (many ends item) Body (bodyGoesOn ends) := by
  intro ahead ended
  have verdict := verdict_collectAll orderly proceeds decides ahead.length [] [] [] ahead .empty
    ended (Nat.le_refl _)
  rw [many_eq]
  exact verdict.mono (fun _ _ _ => id) (fun _ _ => id)

/-- A step that the tokens ahead, the position and the errors do not show. -/
theorem Verdict.unseen {α : Type} {step : Parser Unit} {next : Parser α} {language : Language α}
    {goesOn : α → TokenKind → Prop} {ahead : List Token} (orderly : Orderly next)
    (viable : language.Viable []) (takes : ∀ rest, Takes step () [] [] rest)
    (ended : Ended ahead) (verdict : Verdict next language goesOn ahead) :
    Verdict (step >>= fun _ => next) language goesOn ahead := by
  rcases ended.exists_cons with ⟨token, rest, rfl⟩
  have first : Verdict step (fun _ word strays => word = [] ∧ strays = []) (fun _ _ => False)
      (token :: rest) :=
    .takes (List.nil_append _).symm ⟨rfl, rfl⟩ id ended fun _ _ => takes _
  refine first.bind ?_ (fun _ => orderly) ?_
  · rintro _ _ _ ⟨rfl, rfl⟩
    exact viable
  · rintro _ _ _ next' rest' split ⟨rfl, rfl⟩ _ _
    rw [List.nil_append] at split
    rw [← split]
    exact verdict.mono (fun _ _ _ => id) (fun _ _ => id)

theorem takes_modifyOpenBlocks (change : Cursor → Nat) (rest : List Token) :
    Takes (modify fun cursor => { cursor with openBlocks := change cursor }) () [] [] rest := by
  intro cursor split
  exact ⟨_, rfl, split, rfl, [], (List.append_nil _).symm, rfl⟩

theorem verdict_blockRest (orderly : Orderly item) (proceeds : Proceeds endsBlock item)
    (decides : Decides item Found foundGoesOn) {opening : Token}
    (isOpening : opening.kind = .symbol .leftBrace) {rest : List Token} (ended : Ended rest) :
    Verdict (blockRest item) (Language.after (Clause .statement) [opening] []) statementGoesOn
      rest := by
  have closes {nodes : List Node} {word strays : List Token} {closing : Token}
      (body : Body nodes word strays) (isClosing : closing.kind = .symbol .rightBrace) :
      Clause .statement (.blockStmt nodes) (opening :: (word ++ [closing])) strays :=
    .block isOpening body isClosing
  have afterwards (nodes : List Node) : Orderly (expect (.symbol .rightBrace) .blockClosing >>=
      fun _ => (Pure.pure (.blockStmt nodes) : Parser Node)) :=
    (Orderly.expect (by simp) _).bind fun _ => Orderly.pure _
  refine Verdict.unseen ?_ ?_ (takes_modifyOpenBlocks _) ended ?_
  · exact (Orderly.many endsBlock orderly).bind fun nodes =>
      (Orderly.modifyOpenBlocks _).bind fun _ => afterwards nodes
  · exact ⟨_, [blankToken (.symbol .rightBrace)], _, closes .empty rfl⟩
  · refine (decides_many orderly proceeds decides rest ended).bind ?_ ?_ ?_
    · intro nodes word strays body
      exact ⟨_, [blankToken (.symbol .rightBrace)], _, closes body rfl⟩
    · intro nodes
      exact (Orderly.modifyOpenBlocks _).bind fun _ => afterwards nodes
    · intro nodes word strays token tail _ body _ tailEnded
      have viable : (Language.after (Language.after (Clause .statement) [opening] []) word
          strays).Viable [] := by
        refine ⟨.blockStmt nodes, [blankToken (.symbol .rightBrace)], [], ?_⟩
        simpa [Language.after] using closes body rfl
      apply Verdict.unseen (afterwards nodes) viable (takes_modifyOpenBlocks _) tailEnded
      apply Verdict.expect (by simp) (by simp) (by simp) viable tailEnded
      intro closing final _ isClosing finalEnded
      refine Verdict.finish finalEnded ?_ (fun _ => by simp [statementGoesOn, Node.endsOpen])
      simpa [Language.after] using closes body isClosing

end Bodies

/-! ## Statements and declarations -/

/-- The tokens that lead a statement other than an expression. -/
theorem leadsStatement_cases {kind : TokenKind} (leads : leadsStatement kind = true) :
    kind = .keyword .kwPrint ∨ kind = .keyword .kwIf ∨ kind = .keyword .kwWhile ∨
      kind = .symbol .leftBrace := by
  unfold leadsStatement at leads
  split at leads <;> simp_all

/-- What is noted in recovery does not come first. -/
theorem Cursor.FirstNote.recovering {α : Type} {parser : Parser α} {cursor : Cursor}
    {error : SyntaxError} (first : cursor.FirstNote (cursorOf (parser cursor)) error)
    (start : Nat) :
    cursor.FirstNote (cursorOf (Grammar.recovering start parser cursor)) error := by
  cases run : parser cursor with
  | ok a after =>
      rw [run] at first
      rw [recovering_apply_ok run]
      exact first
  | error stop after =>
      rw [run] at first
      by_cases rejected : stop = .rejected
      · subst rejected
        rw [recovering_apply_rejected run]
        exact first.leads (((Orderly.recover start).bind fun _ => Orderly.pure none) after)
      · rw [recovering_apply_error run rejected]
        exact first

section Statements

variable {expr nested : Parser Node}

theorem decides_statementOf (exprOrderly : Orderly expr)
    (exprDecides : Decides expr (Phrase .expression) expressionGoesOn)
    (nestedOrderly : Orderly nested)
    (nestedDecides : Decides nested (Clause .statement) statementGoesOn)
    (proceeds : Proceeds endsBlock (declarationOf expr nested))
    (itemDecides : Decides (declarationOf expr nested) Found foundGoesOn) :
    Decides (statementOf expr nested) (Clause .statement) statementGoesOn := by
  intro ahead ended
  refine Verdict.accept rfl ended ?_ ?_
  · intro lead rest _ leads restEnded
    dsimp only
    rcases leadsStatement_cases leads with isLead | isLead | isLead | isLead
    · simp only [isLead]
      exact verdict_printRest exprDecides isLead restEnded
    · simp only [isLead]
      exact verdict_ifRest exprDecides nestedOrderly nestedDecides isLead restEnded
    · simp only [isLead]
      exact verdict_whileRest exprDecides nestedOrderly nestedDecides isLead restEnded
    · simp only [isLead]
      exact verdict_blockRest (Orderly.declarationOf exprOrderly nestedOrderly) proceeds
        itemDecides isLead restEnded
  · intro token rest same _
    exact decides_exprSentence exprDecides _ (same ▸ ended)

theorem decides_bareDeclaration
    (exprDecides : Decides expr (Phrase .expression) expressionGoesOn)
    (nestedDecides : Decides nested (Clause .statement) statementGoesOn) :
    Decides (bareDeclaration expr nested) (Clause .declaration) statementGoesOn := by
  intro ahead ended
  refine Verdict.accept rfl ended ?_ ?_
  · intro lead rest _ isLead restEnded
    exact verdict_varRest exprDecides (by simpa using isLead) restEnded
  · intro token rest same _
    exact (nestedDecides _ (same ▸ ended)).mono (fun _ _ _ clause => clause.statement)
      (fun _ _ => id)

theorem takes_declarationOf {node : Node} {word strays rest : List Token}
    (takes : Takes (bareDeclaration expr nested) node word strays rest) :
    Takes (declarationOf expr nested) (some node) word strays rest := by
  intro cursor split
  rcases takes cursor split with ⟨after, run, past⟩
  rw [declarationOf_apply]
  exact ⟨after, recovering_apply_ok run, past⟩

theorem givesUp_declarationOf {ahead : List Token}
    (givesUp : GivesUp (bareDeclaration expr nested) ahead) :
    GivesUp (declarationOf expr nested) ahead := by
  intro cursor split
  rw [declarationOf_apply]
  rcases givesUp cursor split with ⟨after, errors, run, noted, soft⟩ | ⟨error, nested, first⟩
  · exact Or.inl ⟨after, errors, recovering_apply_error run (by simp), noted, soft⟩
  · exact Or.inr ⟨error, nested, first.recovering _⟩

theorem decides_declarationOf
    (exprDecides : Decides expr (Phrase .expression) expressionGoesOn)
    (nestedDecides : Decides nested (Clause .statement) statementGoesOn) :
    Decides (declarationOf expr nested) Found foundGoesOn := by
  intro ahead ended
  cases decides_bareDeclaration exprDecides nestedDecides ahead ended with
  | @takes node word strays token rest split clause stopped restEnded takes =>
      refine .takes split ⟨node, rfl, clause⟩ ?_ restEnded fun rest' restEnded' =>
        takes_declarationOf (takes rest' restEnded')
      rintro ⟨_, ⟨⟩, goesOn⟩
      exact stopped goesOn
  | blames split viable notNested blames =>
      rcases viable with ⟨node, rest, strays, clause⟩
      refine .blames split ⟨some node, rest, strays, node, rfl, clause⟩ notNested
        fun rest' restEnded cursor ahead => ?_
      rw [declarationOf_apply]
      exact (blames rest' restEnded cursor ahead).recovering _
  | givesUp givesUp => exact .givesUp (givesUp_declarationOf givesUp)

end Statements

theorem decides_statement (levels : Nat) :
    Decides (statement levels) (Clause .statement) statementGoesOn := by
  induction levels with
  | zero => exact fun _ _ => Verdict.overNested
  | succ levels inductionHypothesis =>
      exact decides_statementOf (Orderly.expression levels) (decides_expression levels)
        (Orderly.statement levels) inductionHypothesis (proceeds_declaration rfl levels)
        (decides_declarationOf (decides_expression levels) inductionHypothesis)

theorem decides_declaration (levels : Nat) : Decides (declaration levels) Found foundGoesOn :=
  decides_declarationOf (decides_expression levels) (decides_statement levels)

/-! ## Programs -/

theorem Cursor.FirstNote.abandoning {parser : Parser (Option Node)} {cursor : Cursor}
    {error : SyntaxError} (first : cursor.FirstNote (cursorOf (parser cursor)) error)
    (start : Nat) :
    cursor.FirstNote (cursorOf (Grammar.abandoning start parser cursor)) error := by
  cases run : parser cursor with
  | ok found after =>
      rw [run] at first
      rw [abandoning_apply_ok run]
      exact first
  | error stop after =>
      rw [run] at first
      by_cases overNested : stop = .overNested
      · subst overNested
        rw [abandoning_apply_overNested run]
        exact first.leads (((Orderly.abandon start).bind fun _ => Orderly.pure none) after)
      · rw [abandoning_apply_error run overNested]
        exact first

/-- What is nested too deeply is noted when it is given up. -/
theorem firstNote_abandon {cursor after : Cursor} {errors : List SyntaxError}
    (noted : after.errors = cursor.errors ++ errors) (soft : firstFault errors = none)
    (ended : Ended after.ahead) (start : Nat) :
    ∃ error, error.fault = .nesting ∧ cursor.FirstNote
      (cursorOf ((abandon start >>= fun _ => (pure none : Parser (Option Node))) after)) error := by
  rcases ended.exists_cons with ⟨token, rest, split⟩
  have blamed : after.FirstNote (after.blaming token .nesting)
      ⟨after.position, token, .nesting⟩ := ⟨_, rfl, rfl⟩
  have leads := (((Orderly.modifyOpenBlocks fun _ => 0).bind fun _ => Orderly.recover start).bind
    fun _ => Orderly.pure (none : Option Node)) (after.blaming token .nesting)
  have step : (abandon start >>= fun _ => (pure none : Parser (Option Node))) after =
      (((modify fun cursor => { cursor with openBlocks := 0 }) >>= fun _ => recover start) >>=
        fun _ => (pure none : Parser (Option Node))) (after.blaming token .nesting) := by
    rw [abandon, bind_assoc, bind_apply_ok (noteNext_apply split .nesting)]
  refine ⟨⟨after.position, token, .nesting⟩, rfl, ?_⟩
  rw [step]
  exact (blamed.leads leads).of_soft noted soft

theorem takes_topDeclaration {levels : Nat} {found : Option Node} {word strays rest : List Token}
    (takes : Takes (declaration levels) found word strays rest) :
    Takes (topDeclaration levels) found word strays rest := by
  intro cursor split
  obtain ⟨after, run, past⟩ := takes cursor split
  rw [topDeclaration_apply]
  exact ⟨after, abandoning_apply_ok run, past⟩

theorem givesUp_topDeclaration {levels : Nat} {ahead : List Token} (ended : Ended ahead)
    (givesUp : GivesUp (declaration levels) ahead) : GivesUp (topDeclaration levels) ahead := by
  intro cursor split
  rw [topDeclaration_apply]
  rcases givesUp cursor split with ⟨after, errors, run, noted, soft⟩ | ⟨error, nested, first⟩
  · have leads := Orderly.declaration levels cursor
    rw [run] at leads
    rw [abandoning_apply_overNested run]
    exact Or.inr (firstNote_abandon noted soft (leads.ended (split ▸ ended)) _)
  · exact Or.inr ⟨error, nested, first.abandoning _⟩

theorem decides_topDeclaration (levels : Nat) :
    Decides (topDeclaration levels) Found foundGoesOn := by
  intro ahead ended
  cases decides_declaration levels ahead ended with
  | takes split clause stopped restEnded takes =>
      exact .takes split clause stopped restEnded fun rest' restEnded' =>
        takes_topDeclaration (takes rest' restEnded')
  | blames split viable notNested blames =>
      refine .blames split viable notNested fun rest' restEnded cursor ahead => ?_
      rw [topDeclaration_apply]
      exact Cursor.FirstNote.abandoning (blames rest' restEnded cursor ahead) _
  | givesUp givesUp => exact .givesUp (givesUp_topDeclaration ended givesUp)

theorem decides_program (levels : Nat) :
    Decides (program levels) Body (bodyGoesOn endsSource) :=
  decides_many (Orderly.topDeclaration levels) (proceeds_topDeclaration levels)
    (decides_topDeclaration levels)

/-! ## Programs are never given up -/

/-- A parser that gives up nothing but what is inside it. -/
def Persists {α : Type} (parser : Parser α) : Prop :=
  ∀ cursor after, parser cursor ≠ .error .overNested after

namespace Persists

variable {α β : Type}

theorem bind {parser : Parser α} {next : α → Parser β} (first : Persists parser)
    (second : ∀ a, Persists (next a)) : Persists (parser >>= next) := by
  intro cursor after run
  rw [bind_apply] at run
  cases firstRun : parser cursor with
  | ok a middle =>
      rw [firstRun] at run
      exact second a middle after run
  | error stop middle =>
      rw [firstRun] at run
      cases run
      exact first cursor _ firstRun

theorem pure (a : α) : Persists (Pure.pure a : Parser α) := fun _ _ run => by cases run

theorem nextToken : Persists nextToken := by
  intro cursor after run
  cases split : cursor.ahead with
  | nil =>
      rw [nextToken_apply_nil split] at run
      cases run
  | cons token rest =>
      rw [nextToken_apply split] at run
      cases run

theorem get : Persists (MonadState.get : Parser Cursor) := fun _ _ run => by cases run

theorem modify (change : Cursor → Cursor) : Persists (modify change : Parser Unit) :=
  fun _ _ run => by cases run

theorem passToken : Persists passToken := by
  intro cursor after run
  unfold Grammar.passToken at run
  split at run <;> cases run

theorem skipToBoundary (tokens : List Token) : Persists (skipToBoundary tokens) := by
  induction tokens with
  | nil => exact fun _ _ run => by cases run
  | cons token rest inductionHypothesis =>
      refine get.bind fun cursor => ?_
      split
      · exact pure ()
      · exact passToken.bind fun _ => inductionHypothesis

theorem recover (start : Nat) : Persists (recover start) := by
  refine nextToken.bind fun token => get.bind fun cursor => ?_
  dsimp only
  split
  · exact passToken.bind fun _ => get.bind fun _ => skipToBoundary _
  · exact get.bind fun _ => skipToBoundary _

theorem abandon (start : Nat) : Persists (abandon start) :=
  (nextToken.bind fun _ => get.bind fun _ => modify _).bind fun _ =>
    (modify _).bind fun _ => recover start

theorem abandoning (start : Nat) (parser : Parser (Option α)) :
    Persists (abandoning start parser) := by
  intro cursor after run
  cases parserRun : parser cursor with
  | ok found middle =>
      rw [abandoning_apply_ok parserRun] at run
      cases run
  | error stop middle =>
      by_cases overNested : stop = .overNested
      · subst overNested
        rw [abandoning_apply_overNested parserRun] at run
        exact ((abandon start).bind fun _ => pure none) middle after run
      · rw [abandoning_apply_error parserRun overNested] at run
        cases run
        exact overNested rfl

theorem collect (ends : TokenKind → Bool) {item : Parser (Option α)} (persists : Persists item)
    (fuel : Nat) (collected : List α) : Persists (collect ends item fuel collected) := by
  induction fuel generalizing collected with
  | zero =>
      refine nextToken.bind fun token => ?_
      split
      · exact pure _
      · exact fun _ _ run => by cases run
  | succ fuel inductionHypothesis =>
      refine nextToken.bind fun token => ?_
      split
      · exact pure _
      · refine persists.bind fun found => ?_
        cases found with
        | none => exact inductionHypothesis collected
        | some a => exact inductionHypothesis (a :: collected)

theorem program (levels : Nat) : Persists (program levels) :=
  get.bind fun _ => collect endsSource (get.bind fun _ => abandoning _ _) _ []

end Persists

end TreeWalker.Grammar
