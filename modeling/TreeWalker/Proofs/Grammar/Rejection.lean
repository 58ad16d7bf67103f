import TreeWalker.Proofs.Grammar.Completeness.Statement

/-!
# Statements without their last semicolon

A statement that ends in a semicolon is of the same form up to there, whatever
stands in the place of the semicolon.  If that is no semicolon and does not make the
expression in front of it a longer one, the statement is rejected there, and so is
each statement around it that ends in the same semicolon.  Only a statement that is
nested too deeply is not rejected, and then it would be given up with its semicolon
as well.
-/

namespace TreeWalker

/-- What the last semicolon of a statement ends, if the statement ends in one. -/
def Node.lastSentence? : Node → Option Grammar.Sentence
  | .exprStmt _ => some .expression
  | .printStmt _ => some .value
  | .varStmt _ _ => some .declaration
  | .ifStmt _ thenBranch .absent => thenBranch.lastSentence?
  | .ifStmt _ _ elseBranch => elseBranch.lastSentence?
  | .whileStmt _ body => body.lastSentence?
  | _ => none

theorem Node.lastSentence?_ifElse {condition thenBranch elseBranch : Node}
    (present : elseBranch ≠ .absent) :
    (Node.ifStmt condition thenBranch elseBranch).lastSentence? = elseBranch.lastSentence? := by
  cases elseBranch with
  | absent => contradiction
  | _ => rfl

namespace Grammar

variable {α β : Type}

/-! ## Rejections -/

/-- The parser rejects the token after a word, and stops there. -/
def Rejects (parser : Parser α) (word strays : List Token) (token : Token) (fault : Fault)
    (rest : List Token) : Prop :=
  ∀ cursor : Cursor, cursor.ahead = word ++ token :: rest →
    ∃ stopped, parser cursor = .error .rejected (stopped.blaming token fault) ∧
      cursor.Past word strays (token :: rest) stopped

section Rejections

variable {parser : Parser α} {next : α → Parser β} {a : α} {word word' strays strays' : List Token}
  {token : Token} {fault : Fault} {rest : List Token}

theorem Rejects.bind (rejects : Rejects parser word strays token fault rest) :
    Rejects (parser >>= next) word strays token fault rest := by
  intro cursor split
  obtain ⟨stopped, run, past⟩ := rejects cursor split
  exact ⟨stopped, bind_apply_error run, past⟩

theorem Rejects.after (first : Takes parser a word strays (word' ++ token :: rest))
    (second : Rejects (next a) word' strays' token fault rest) :
    Rejects (parser >>= next) (word ++ word') (strays ++ strays') token fault rest := by
  intro cursor split
  rw [List.append_assoc] at split
  obtain ⟨middle, firstRun, firstPast⟩ := first cursor split
  obtain ⟨stopped, secondRun, secondPast⟩ := second middle firstPast.ahead
  exact ⟨stopped, (bind_apply_ok firstRun).trans secondRun, firstPast.trans secondPast⟩

theorem rejects_expect {kind : TokenKind} (other : token.kind ≠ kind) (fault : Fault)
    (rest : List Token) : Rejects (expect kind fault) [] [] token fault rest := by
  intro cursor split
  have past := Cursor.Past.refl cursor
  rw [show cursor.ahead = token :: rest from split] at past
  exact ⟨cursor, expect_apply_ne split other fault, past⟩

end Rejections

/-! ## The place of a semicolon -/

/-- Two ways in which tokens go on: with a semicolon, or in its place with a token
that does not make an expression a longer one. -/
structure Gap (semicolon : Token) where
  rest : List Token
  found : Token
  others : List Token
  isSemicolon : semicolon.kind = .symbol .semicolon
  notSemicolon : found.kind ≠ .symbol .semicolon
  clear : Clear (found :: others)
  restEnded : Ended rest
  othersEnded : Ended (found :: others)

namespace Gap

variable {semicolon : Token}

theorem completeEnded (gap : Gap semicolon) (word : List Token) :
    Ended (word ++ semicolon :: gap.rest) :=
  (gap.restEnded.append_left [semicolon]).append_left word

theorem brokenEnded (gap : Gap semicolon) (word : List Token) :
    Ended (word ++ gap.found :: gap.others) :=
  gap.othersEnded.append_left word

/-- Unless it gives up on a word with a semicolon, the parser rejects what stands in
the place of the semicolon. -/
def Lacks (gap : Gap semicolon) (parser : Parser α) (word strays : List Token) (fault : Fault) :
    Prop :=
  GivesUp parser (word ++ semicolon :: gap.rest) ∨
    Rejects parser word strays gap.found fault gap.others

namespace Lacks

variable {gap : Gap semicolon} {parser : Parser α} {next : α → Parser β} {a : α} {fits : Prop}
  {word word' strays strays' : List Token} {fault : Fault}

theorem bind (lacks : gap.Lacks parser word strays fault) (orderly : ∀ a, Orderly (next a)) :
    gap.Lacks (parser >>= next) word strays fault := by
  rcases lacks with givesUp | rejects
  · exact Or.inl (givesUp.bind orderly)
  · exact Or.inr rejects.bind

/-- A word is taken before, whichever way the tokens go on. -/
theorem passing (complete : Takes parser a word strays (word' ++ semicolon :: gap.rest))
    (broken : Takes parser a word strays (word' ++ gap.found :: gap.others))
    (lacks : gap.Lacks (next a) word' strays' fault) :
    gap.Lacks (parser >>= next) (word ++ word') (strays ++ strays') fault := by
  unfold Lacks
  rw [List.append_assoc]
  rcases lacks with givesUp | rejects
  · exact Or.inl (GivesUp.after complete givesUp)
  · exact Or.inr (Rejects.after broken rejects)

/-- The tokens are looked at before, whichever way they go on. -/
theorem looking (complete : Takes parser a [] [] (word ++ semicolon :: gap.rest))
    (broken : Takes parser a [] [] (word ++ gap.found :: gap.others))
    (lacks : gap.Lacks (next a) word strays fault) :
    gap.Lacks (parser >>= next) word strays fault := by
  have whole : gap.Lacks (parser >>= next) ([] ++ word) ([] ++ strays) fault :=
    passing complete broken lacks
  exact whole

/-- A word is settled before, whichever way the tokens go on. -/
theorem after (complete : Settles fits parser a word strays (word' ++ semicolon :: gap.rest))
    (broken : Settles fits parser a word strays (word' ++ gap.found :: gap.others))
    (orderly : ∀ a, Orderly (next a)) (lacks : gap.Lacks (next a) word' strays' fault) :
    gap.Lacks (parser >>= next) (word ++ word') (strays ++ strays') fault := by
  by_cases fitting : fits
  · exact passing (complete.takes fitting) (broken.takes fitting) lacks
  · have givesUp := (complete.givesUp fitting).bind orderly
    rw [← List.append_assoc] at givesUp
    exact Or.inl givesUp

theorem overNested : gap.Lacks (throw .overNested : Parser α) word strays fault :=
  Or.inl fun cursor _ => Or.inl ⟨cursor, [], rfl, by simp, rfl⟩

/-- What is lacking after a lead is lacking in the statement that it leads. -/
theorem of_lead {expr nested : Parser Node} {lead : Token}
    (leads : leadsStatement lead.kind = true)
    (lacks : gap.Lacks (match lead.kind with
      | .keyword .kwPrint => printRest expr
      | .keyword .kwIf => ifRest expr nested
      | .keyword .kwWhile => whileRest expr nested
      | _ => blockRest (declarationOf expr nested)) word strays fault) :
    gap.Lacks (statementOf expr nested) (lead :: word) strays fault :=
  passing (takes_accept?_some leads _) (takes_accept?_some leads _) lacks

end Lacks

section Sentences

variable (gap : Gap semicolon) (limit : Nat) (sentence : Sentence)

/-- Where a sentence would end, the semicolon is lacking. -/
theorem lacks_sentenceEnd (node : Node) :
    gap.Lacks (sentenceEnd sentence >>= fun _ => pure node) [] [] (.semicolonAfter sentence) :=
  Or.inr (rejects_expect gap.notSemicolon _ _).bind.bind

/-- An expression lacks the semicolon that would end the sentence. -/
theorem lacks_sentence {expr : Node} {word strays : List Token}
    (phrase : Phrase .expression expr word strays) (tree : Node → Node) :
    gap.Lacks (expression limit >>= fun node => sentenceEnd sentence >>= fun _ => pure (tree node))
      word strays (.semicolonAfter sentence) := by
  obtain ⟨depth, settles, _⟩ := phrase.settled
  have complete := settles limit ([] ++ semicolon :: gap.rest) (gap.completeEnded [])
    (clear_semicolon gap.isSemicolon _)
  have broken := settles limit ([] ++ gap.found :: gap.others) (gap.brokenEnded []) gap.clear
  have orderly (node : Node) : Orderly (sentenceEnd sentence >>= fun _ => pure (tree node)) :=
    (Orderly.sentenceEnd sentence).bind fun _ => Orderly.pure _
  have whole := Lacks.after complete broken orderly (gap.lacks_sentenceEnd sentence (tree expr))
  rwa [List.append_nil, List.append_nil] at whole

end Sentences

/-- What is lacking after a condition. -/
theorem Lacks.condition {gap : Gap semicolon} {condition : Node} {next : Node → Parser α}
    {conditionWord conditionStrays word strays : List Token} {fault : Fault} {limit : Nat}
    (phrase : Phrase .parenthesized condition conditionWord conditionStrays) (guarded : Guarded)
    (orderly : ∀ node, Orderly (next node)) (lacks : gap.Lacks (next condition) word strays fault) :
    gap.Lacks (Grammar.condition guarded (expression limit) >>= next) (conditionWord ++ word)
      (conditionStrays ++ strays) fault := by
  obtain ⟨depth, settled, _⟩ := phrase.settled
  exact .after (Settles.condition settled guarded limit (gap.completeEnded word))
    (Settles.condition settled guarded limit (gap.brokenEnded word)) orderly lacks

end Gap

/-! ## What is lacking in a statement -/

/-- A statement or declaration that ends in a semicolon lacks it, if something else
stands in its place. -/
def Lacking (parser : Nat → Parser Node) (node : Node) (word strays : List Token) : Prop :=
  ∀ front semicolon, word = front ++ [semicolon] → semicolon.kind = .symbol .semicolon →
    front ≠ [] ∧ ∃ sentence, node.lastSentence? = some sentence ∧
      ∀ gap : Gap semicolon, Stopped node gap.rest → ∀ limit,
        gap.Lacks (parser limit) front strays (.semicolonAfter sentence)

/-- A declaration, or a statement in the place of one, without recovery. -/
abbrev plainDeclaration (limit : Nat) : Parser Node :=
  bareDeclaration (expression limit) (statement limit)

/-- The last token of two words in a row is the last one of the second word. -/
theorem exists_front {word more front : List Token} {last : Token}
    (same : word ++ more = front ++ [last]) (some : more ≠ []) :
    ∃ moreFront, more = moreFront ++ [last] ∧ front = word ++ moreFront := by
  obtain ⟨moreFront, token, rfl⟩ := (List.eq_nil_or_concat more).resolve_left some
  rw [List.concat_eq_append, ← List.append_assoc] at same
  obtain ⟨rfl, isLast⟩ := List.append_inj' same rfl
  cases isLast
  exact ⟨moreFront, List.concat_eq_append, rfl⟩

namespace Lacking

variable {node condition : Node} {word strays conditionWord conditionStrays : List Token}
  {lead semicolon : Token}

theorem of_rule (lacking : Lacking (fun limit =>
      statementOf (Grammar.expression limit) (Grammar.statement limit)) node word strays) :
    Lacking Grammar.statement node word strays := by
  intro front semicolon same isSemicolon
  obtain ⟨some, sentence, isLast, lacks⟩ := lacking front semicolon same isSemicolon
  refine ⟨some, sentence, isLast, fun gap stopped limit => ?_⟩
  cases limit with
  | zero =>
      rw [statement_zero]
      exact .overNested
  | succ limit =>
      rw [Grammar.statement]
      exact lacks gap stopped limit

theorem expression (phrase : Phrase .expression node word strays) :
    Lacking Grammar.statement (.exprStmt node) (word ++ [semicolon]) strays := by
  refine of_rule fun front last same _ => ?_
  obtain ⟨rfl, -⟩ := List.append_inj' same rfl
  obtain ⟨token, tail, isWord, starts⟩ := phrase.head
  refine ⟨isWord ▸ List.cons_ne_nil token tail, .expression, rfl, fun gap _ limit => ?_⟩
  have lacks := gap.lacks_sentence limit .expression phrase .exprStmt
  subst isWord
  exact .looking (takes_accept?_none starts.kind.1 _) (takes_accept?_none starts.kind.1 _) lacks

theorem print (isLead : lead.kind = .keyword .kwPrint)
    (phrase : Phrase .expression node word strays) :
    Lacking Grammar.statement (.printStmt node) (lead :: (word ++ [semicolon])) strays := by
  refine of_rule fun front last same _ => ?_
  obtain ⟨rfl, -⟩ :=
    List.append_inj' (show (lead :: word) ++ [semicolon] = front ++ [last] from same) rfl
  refine ⟨List.cons_ne_nil _ _, .value, rfl, fun gap _ limit => ?_⟩
  apply Gap.Lacks.of_lead (by simp [isLead, leadsStatement])
  simp only [isLead]
  exact gap.lacks_sentence limit .value phrase .printStmt

theorem ifThen (isLead : lead.kind = .keyword .kwIf)
    (phrase : Phrase .parenthesized condition conditionWord conditionStrays)
    (clause : Clause .statement node word strays)
    (lacking : Lacking Grammar.statement node word strays) :
    Lacking Grammar.statement (.ifStmt condition node .absent) (lead :: (conditionWord ++ word))
      (conditionStrays ++ strays) := by
  refine of_rule fun front last same isSemicolon => ?_
  obtain ⟨branchFront, branchSame, rfl⟩ :=
    @exists_front (lead :: conditionWord) word front last same (clause.word_ne_nil (by simp))
  obtain ⟨-, sentence, isLast, lacks⟩ := lacking branchFront last branchSame isSemicolon
  refine ⟨by simp, sentence, isLast, fun gap stopped limit => ?_⟩
  have branchStopped : Stopped node gap.rest := fun token isNext goesOn =>
    stopped token isNext ⟨rfl, goesOn.2⟩
  have orderly (condition : Node) := Orderly.elseRest (Orderly.statement limit) condition
  have branch := (lacks gap branchStopped limit).bind (orderly condition)
  apply Gap.Lacks.of_lead (by simp [isLead, leadsStatement])
  simp only [isLead, ifRest_eq]
  exact .condition phrase .branch
    (fun condition => (Orderly.statement limit).bind (orderly condition)) branch

theorem ifElse {thenBranch : Node} {thenWord thenStrays : List Token} {middle : Token}
    (isLead : lead.kind = .keyword .kwIf)
    (phrase : Phrase .parenthesized condition conditionWord conditionStrays)
    (thenClause : Clause .statement thenBranch thenWord thenStrays)
    (closed : thenBranch.endsOpen = false) (isElse : middle.kind = .keyword .kwElse)
    (clause : Clause .statement node word strays)
    (lacking : Lacking Grammar.statement node word strays) :
    Lacking Grammar.statement (.ifStmt condition thenBranch node)
      (lead :: (conditionWord ++ (thenWord ++ middle :: word)))
      (conditionStrays ++ (thenStrays ++ strays)) := by
  refine of_rule fun front last same isSemicolon => ?_
  have present := clause.ne_absent
  obtain ⟨branchFront, branchSame, rfl⟩ :=
    @exists_front (lead :: (conditionWord ++ (thenWord ++ [middle]))) word front last
      (by simpa using same) (clause.word_ne_nil (by simp))
  obtain ⟨-, sentence, isLast, lacks⟩ := lacking branchFront last branchSame isSemicolon
  refine ⟨by simp, sentence, (Node.lastSentence?_ifElse present).trans isLast,
    fun gap stopped limit => ?_⟩
  have branchStopped : Stopped node gap.rest := by
    intro token isNext
    have open' := stopped token isNext
    rwa [statementGoesOn, endsOpen_ifElse present] at open'
  have thenStopped (rest : List Token) : Stopped thenBranch (middle :: rest) := by
    rintro token ⟨⟩ ⟨isOpen, _⟩
    simp [closed] at isOpen
  have accepted : (middle.kind == .keyword .kwElse) = true := by simpa using isElse
  have orderly (condition : Node) := Orderly.elseRest (Orderly.statement limit) condition
  have tail : gap.Lacks (elseRest (Grammar.statement limit) condition thenBranch)
      (middle :: branchFront) strays (.semicolonAfter sentence) :=
    .passing (takes_accept?_some accepted _) (takes_accept?_some accepted _)
      ((lacks gap branchStopped limit).bind fun _ => Orderly.pure _)
  obtain ⟨depth, settles, _⟩ := Clause.settled thenClause
  have branches := Gap.Lacks.after (settles limit _ (gap.completeEnded _) (thenStopped _))
    (settles limit _ (gap.brokenEnded _) (thenStopped _)) (orderly condition) tail
  rw [List.cons_append, List.append_assoc, List.append_assoc]
  apply Gap.Lacks.of_lead (by simp [isLead, leadsStatement])
  simp only [isLead, ifRest_eq]
  exact .condition phrase .branch
    (fun condition => (Orderly.statement limit).bind (orderly condition)) branches

theorem whileDo (isLead : lead.kind = .keyword .kwWhile)
    (phrase : Phrase .parenthesized condition conditionWord conditionStrays)
    (clause : Clause .statement node word strays)
    (lacking : Lacking Grammar.statement node word strays) :
    Lacking Grammar.statement (.whileStmt condition node) (lead :: (conditionWord ++ word))
      (conditionStrays ++ strays) := by
  refine of_rule fun front last same isSemicolon => ?_
  obtain ⟨bodyFront, bodySame, rfl⟩ :=
    @exists_front (lead :: conditionWord) word front last same (clause.word_ne_nil (by simp))
  obtain ⟨-, sentence, isLast, lacks⟩ := lacking bodyFront last bodySame isSemicolon
  refine ⟨by simp, sentence, isLast, fun gap stopped limit => ?_⟩
  have loop := (lacks gap stopped limit).bind fun body =>
    Orderly.pure (Node.whileStmt condition body)
  apply Gap.Lacks.of_lead (by simp [isLead, leadsStatement])
  simp only [isLead]
  exact .condition phrase .loop
    (fun _ => (Orderly.statement limit).bind fun _ => Orderly.pure _) loop

/-- A block ends in no semicolon. -/
theorem block {closing : Token} (isClosing : closing.kind = .symbol .rightBrace) :
    Lacking Grammar.statement node (lead :: (word ++ [closing])) strays := by
  intro front semicolon same isSemicolon
  obtain ⟨-, isLast⟩ :=
    List.append_inj' (show (lead :: word) ++ [closing] = front ++ [semicolon] from same) rfl
  cases isLast
  cases isClosing.symm.trans isSemicolon

/-! ### Declarations -/

theorem statement (clause : Clause .statement node word strays)
    (lacking : Lacking Grammar.statement node word strays) :
    Lacking plainDeclaration node word strays := by
  intro front semicolon same isSemicolon
  obtain ⟨some, sentence, isLast, lacks⟩ := lacking front semicolon same isSemicolon
  refine ⟨some, sentence, isLast, fun gap stopped limit => ?_⟩
  obtain ⟨token, tail, rfl⟩ := List.exists_cons_of_ne_nil some
  obtain ⟨_, _, whole, _, noVar⟩ := clause.head (by simp)
  cases whole.symm.trans same
  have refused : (token.kind == .keyword .kwVar) = false := by simpa using noVar rfl
  exact .looking (takes_accept?_none refused _) (takes_accept?_none refused _)
    (lacks gap stopped limit)

theorem var {name : Token} (isLead : lead.kind = .keyword .kwVar)
    (isName : name.kind = .identifier) :
    Lacking plainDeclaration (.varStmt name .absent) [lead, name, semicolon] [] := by
  intro front last same isSemicolon
  obtain ⟨rfl, -⟩ :=
    List.append_inj' (show [lead, name] ++ [semicolon] = front ++ [last] from same) rfl
  refine ⟨List.cons_ne_nil _ _, .declaration, rfl, fun gap _ limit => ?_⟩
  have accepted : (lead.kind == .keyword .kwVar) = true := by simpa using isLead
  have refused : (last.kind == .symbol .equal) = false := by simp [isSemicolon]
  have refused' : (gap.found.kind == .symbol .equal) = false := by
    simpa using gap.clear.1 gap.found (by simp)
  have names : gap.Lacks (varRest (Grammar.expression limit)) [name] []
      (.semicolonAfter .declaration) :=
    .passing (takes_expect isName _ _) (takes_expect isName _ _)
      (.looking (takes_accept?_none refused _) (takes_accept?_none refused' _)
        (gap.lacks_sentenceEnd .declaration (.varStmt name .absent)))
  exact .passing (takes_accept?_some accepted _) (takes_accept?_some accepted _) names

theorem varInit {name equal : Token} (isLead : lead.kind = .keyword .kwVar)
    (isName : name.kind = .identifier) (isEqual : equal.kind = .symbol .equal)
    (phrase : Phrase .expression node word strays) :
    Lacking plainDeclaration (.varStmt name node)
      (lead :: name :: equal :: (word ++ [semicolon])) strays := by
  intro front last same _
  obtain ⟨rfl, -⟩ := List.append_inj'
    (show (lead :: name :: equal :: word) ++ [semicolon] = front ++ [last] from same) rfl
  refine ⟨List.cons_ne_nil _ _, .declaration, rfl, fun gap _ limit => ?_⟩
  have accepted : (lead.kind == .keyword .kwVar) = true := by simpa using isLead
  have acceptedEqual : (equal.kind == .symbol .equal) = true := by simpa using isEqual
  have names : gap.Lacks (varRest (Grammar.expression limit)) (name :: equal :: word) strays
      (.semicolonAfter .declaration) :=
    .passing (takes_expect isName _ _) (takes_expect isName _ _)
      (.passing (takes_accept?_some acceptedEqual _) (takes_accept?_some acceptedEqual _)
        (gap.lacks_sentence limit .declaration phrase (Node.varStmt name)))
  exact .passing (takes_accept?_some accepted _) (takes_accept?_some accepted _) names

end Lacking

/-- What is lacking in a clause that ends in a semicolon. -/
def ClauseLacking : Part → Node → List Token → List Token → Prop
  | .statement => Lacking statement
  | .declaration => Lacking plainDeclaration
  | .body => fun _ _ _ => True

theorem Clause.lacking {part : Part} {node : Node} {word strays : List Token}
    (clause : Clause part node word strays) : ClauseLacking part node word strays := by
  induction clause with
  | expression phrase => exact .expression phrase
  | print isLead phrase => exact .print isLead phrase
  | ifThen isLead phrase clause inductionHypothesis =>
      exact .ifThen isLead phrase clause inductionHypothesis
  | ifElse isLead phrase thenClause closed isElse clause _ inductionHypothesis =>
      exact .ifElse isLead phrase thenClause closed isElse clause inductionHypothesis
  | whileDo isLead phrase clause inductionHypothesis =>
      exact .whileDo isLead phrase clause inductionHypothesis
  | block _ _ isClosing => exact .block isClosing
  | statement clause inductionHypothesis => exact .statement clause inductionHypothesis
  | var isLead isName => exact .var isLead isName
  | varInit isLead isName isEqual phrase => exact .varInit isLead isName isEqual phrase
  | empty | item => trivial

end Grammar

end TreeWalker
