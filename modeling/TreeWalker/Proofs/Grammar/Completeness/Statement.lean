import TreeWalker.Proofs.Grammar.Completeness.Expression
import TreeWalker.Proofs.Grammar.Soundness.Program

/-!
# Every program is taken

A statement with a derivation is taken in front of any token that does not make
it a longer statement, and a body in front of a token that ends it, unless they
are nested too deeply.  The next token is enough to tell the forms of statements
apart.
-/

namespace TreeWalker.Grammar

/-! ## First tokens -/

/-- How an operand may begin. -/
def StartsOperand (token : Token) : Prop :=
  (∃ value, literalValue? token = some value) ∨ token.kind = .identifier ∨
    token.kind = .symbol .leftParen ∨ isUnaryOperator token.kind = true

/-- The kinds of tokens at which a declaration begins. -/
def startsDeclaration (kind : TokenKind) : Prop :=
  kind ≠ .eof ∧ kind ≠ .symbol .rightBrace ∧ kind ≠ .keyword .kwElse

theorem Phrase.head {category : Category} {node : Node} {word strays : List Token}
    (phrase : Phrase category node word strays) :
    ∃ token tail, word = token :: tail ∧ StartsOperand token := by
  induction phrase with
  | literal constant => exact ⟨_, _, rfl, Or.inl ⟨_, constant⟩⟩
  | reference isName => exact ⟨_, _, rfl, Or.inr (Or.inl isName)⟩
  | unary isOperator => exact ⟨_, _, rfl, Or.inr (Or.inr (Or.inr isOperator))⟩
  | parenthesized isOpening => exact ⟨_, _, rfl, Or.inr (Or.inr (Or.inl isOpening))⟩
  | grouping _ inductionHypothesis => exact inductionHypothesis
  | tightest _ inductionHypothesis => exact inductionHypothesis
  | tighter _ inductionHypothesis => exact inductionHypothesis
  | plain _ inductionHypothesis => exact inductionHypothesis
  | apply _ _ _ leftHypothesis =>
      rcases leftHypothesis with ⟨token, tail, rfl, starts⟩
      exact ⟨token, _, rfl, starts⟩
  | assign _ _ _ targetHypothesis =>
      rcases targetHypothesis with ⟨token, tail, rfl, starts⟩
      exact ⟨token, _, rfl, starts⟩

/-- No statement but an expression begins as an operand does. -/
theorem StartsOperand.kind {token : Token} (starts : StartsOperand token) :
    leadsStatement token.kind = false ∧ token.kind ≠ .keyword .kwVar ∧
      startsDeclaration token.kind := by
  rcases starts with ⟨value, constant⟩ | isName | isOpening | isOperator
  · unfold literalValue? at constant
    split at constant <;> simp_all [leadsStatement, startsDeclaration]
  · simp [isName, leadsStatement, startsDeclaration]
  · simp [isOpening, leadsStatement, startsDeclaration]
  · unfold isUnaryOperator at isOperator
    split at isOperator <;> simp_all [leadsStatement, startsDeclaration]

theorem Clause.head {part : Part} {node : Node} {word strays : List Token}
    (clause : Clause part node word strays) (isOne : part ≠ .body) :
    ∃ token tail, word = token :: tail ∧ startsDeclaration token.kind ∧
      (part = .statement → token.kind ≠ .keyword .kwVar) := by
  induction clause with
  | expression phrase =>
      rcases phrase.head with ⟨token, tail, rfl, starts⟩
      exact ⟨token, _, rfl, starts.kind.2.2, fun _ => starts.kind.2.1⟩
  | statement _ inductionHypothesis =>
      obtain ⟨token, tail, same, starts, _⟩ := inductionHypothesis (by simp)
      exact ⟨token, tail, same, starts, by simp⟩
  | empty => contradiction
  | item => contradiction
  | print isLead | ifThen isLead | ifElse isLead | whileDo isLead | block isLead | var isLead
  | varInit isLead =>
      exact ⟨_, _, rfl, by simp [isLead, startsDeclaration], by simp [isLead]⟩

/-! ## What is settled of a statement -/

/-- The next token does not make the statement a longer one. -/
def Stopped (node : Node) (tokens : List Token) : Prop :=
  ∀ token ∈ tokens.head?, ¬ statementGoesOn node token.kind

/-- A token that ends the list of items is next. -/
def Ending (ends : TokenKind → Bool) (tokens : List Token) : Prop :=
  ∀ token ∈ tokens.head?, ends token.kind = true

def StatementSettled (depth : Nat) (node : Node) (word strays : List Token) : Prop :=
  ∀ limit rest, Ended rest → Stopped node rest →
    Settles (depth ≤ limit) (statement limit) node word strays rest

def DeclarationSettled (depth : Nat) (node : Node) (word strays : List Token) : Prop :=
  ∀ limit rest, Ended rest → Stopped node rest →
    Settles (depth ≤ limit) (declaration limit) (some node) word strays rest

/-- A parser of the items of a body, which takes what a declaration takes. -/
structure Itemizes (limit : Nat) (ends : TokenKind → Bool) (item : Parser (Option Node)) :
    Prop where
  orderly : Orderly item
  proceeds : Proceeds ends item
  settles : ∀ {fits found word strays rest}, Ended rest →
    Settles fits (declaration limit) found word strays rest →
      Settles fits item found word strays rest
  ends_cases : ∀ {kind}, ends kind = true → kind = .eof ∨ kind = .symbol .rightBrace

/-- A body is settled in front of a token that ends it, in blocks and in
programs. -/
def BodySettled (depth : Nat) (nodes : List Node) (word strays : List Token) : Prop :=
  ∀ limit ends item collected rest, Itemizes limit ends item → Ended rest →
    Ending ends rest → Settles (depth ≤ limit) (collectAll ends item collected)
      (collected.reverse ++ nodes) word strays rest

/-- What is settled of a clause that is nested so deep. -/
def ClauseSettled : Part → (depth : Nat) → Node → List Token → List Token → Prop
  | .statement => StatementSettled
  | .declaration => DeclarationSettled
  | .body => fun depth node word strays => ∀ nodes, node = .blockStmt nodes →
    BodySettled depth nodes word strays

/-- The tree of a clause tells how deep the clause is nested. -/
def ClauseNests : Part → (depth : Nat) → Node → Prop
  | .statement, depth, node | .declaration, depth, node => depth = node.nesting
  | .body, depth, node => ∀ nodes, node = .blockStmt nodes → depth = Node.nestingOfAll nodes

theorem itemizes_declaration (limit : Nat) : Itemizes limit endsBlock (declaration limit) where
  orderly := Orderly.declaration limit
  proceeds := proceeds_declaration rfl limit
  settles _ settles := settles
  ends_cases {kind} isEnd := by
    unfold endsBlock at isEnd
    split at isEnd <;> simp_all

theorem itemizes_topDeclaration (limit : Nat) :
    Itemizes limit endsSource (topDeclaration limit) where
  orderly := Orderly.topDeclaration limit
  proceeds := proceeds_topDeclaration limit
  settles ended settles :=
    ⟨fun fitting => takes_topDeclaration (settles.takes fitting),
      fun tooDeep => givesUp_topDeclaration (ended.append_left _) (settles.givesUp tooDeep)⟩
  ends_cases isEnd := Or.inl (by simpa [endsSource] using isEnd)

/-! ## Sentences -/

theorem statement_zero : statement 0 = throw .overNested := by
  rw [statement]

theorem StatementSettled.of_rule {node : Node} {word strays : List Token} {depth : Nat}
    (settles : ∀ limit rest, Ended rest → Stopped node rest →
      Settles (depth ≤ limit) (statementOf (expression limit) (statement limit)) node word strays
        rest) : StatementSettled (depth + 1) node word strays := by
  intro limit rest ended stopped
  refine Settles.succ statement_zero (fun limit => ?_) limit
  rw [statement]
  exact settles limit rest ended stopped

section Sentences

variable {expr nested : Parser Node} {fits : Prop} {node : Node} {word strays rest : List Token}

theorem takes_sentenceEnd {α : Type} {semicolon : Token}
    (isSemicolon : semicolon.kind = .symbol .semicolon) (sentence : Sentence) (a : α)
    (rest : List Token) :
    Takes (sentenceEnd sentence >>= fun _ => pure a) a [semicolon] [] rest := by
  rw [sentenceEnd, bind_assoc]
  exact takes_expect_pure isSemicolon _ a rest

/-- An expression and the semicolon that ends the sentence. -/
theorem Settles.sentence {semicolon : Token} (settles : Settles fits expr node word strays
      ([semicolon] ++ rest)) (isSemicolon : semicolon.kind = .symbol .semicolon)
    (sentence : Sentence) (tree : Node → Node) :
    Settles fits (expr >>= fun node => sentenceEnd sentence >>= fun _ => pure (tree node))
      (tree node) (word ++ [semicolon]) strays rest := by
  have orderly (node : Node) : Orderly (sentenceEnd sentence >>= fun _ => pure (tree node)) :=
    (Orderly.sentenceEnd sentence).bind fun _ => Orderly.pure _
  have whole := settles.before orderly (takes_sentenceEnd isSemicolon sentence (tree node) rest)
  rwa [List.append_nil] at whole

/-- No expression goes on with a semicolon. -/
theorem clear_semicolon {semicolon : Token} (isSemicolon : semicolon.kind = .symbol .semicolon)
    (rest : List Token) : Clear (semicolon :: rest) :=
  clear_of_kind isSemicolon (by simp) (by simp [Level.all, Level.accepts]) rest

/-- A statement that is no expression, from what follows its first token. -/
theorem Settles.of_lead {lead : Token} (leads : leadsStatement lead.kind = true)
    (settles : Settles fits (match lead.kind with
      | .keyword .kwPrint => printRest expr
      | .keyword .kwIf => ifRest expr nested
      | .keyword .kwWhile => whileRest expr nested
      | _ => blockRest (declarationOf expr nested)) node word strays rest) :
    Settles fits (statementOf expr nested) node (lead :: word) strays rest :=
  Settles.after (takes_accept?_some leads _) settles

end Sentences

theorem StatementSettled.expression {expr : Node} {word strays : List Token} {semicolon : Token}
    {depth : Nat} (phrase : Phrase .expression expr word strays)
    (settled : ExpressionSettled depth expr word strays)
    (isSemicolon : semicolon.kind = .symbol .semicolon) :
    StatementSettled (depth + 1) (.exprStmt expr) (word ++ [semicolon]) strays := by
  rcases phrase.head with ⟨token, tail, rfl, starts⟩
  refine StatementSettled.of_rule fun limit rest ended _ => ?_
  have whole := (settled limit ([semicolon] ++ rest) (ended.append_left _)
    (clear_semicolon isSemicolon rest)).sentence isSemicolon .expression .exprStmt
  have looks : Takes (accept? leadsStatement) none [] [] ((token :: tail ++ [semicolon]) ++ rest) :=
    takes_accept?_none starts.kind.1 _
  exact Settles.after looks whole

theorem StatementSettled.print {lead semicolon : Token} {expr : Node} {word strays : List Token}
    {depth : Nat} (isLead : lead.kind = .keyword .kwPrint)
    (settled : ExpressionSettled depth expr word strays)
    (isSemicolon : semicolon.kind = .symbol .semicolon) :
    StatementSettled (depth + 1) (.printStmt expr) (lead :: (word ++ [semicolon])) strays := by
  refine StatementSettled.of_rule fun limit rest ended _ => ?_
  apply Settles.of_lead (by simp [isLead, leadsStatement])
  simp only [isLead]
  exact (settled limit ([semicolon] ++ rest) (ended.append_left _)
    (clear_semicolon isSemicolon rest)).sentence isSemicolon .value .printStmt

/-! ## Branches and loops -/

theorem Settles.condition {node : Node} {word strays rest : List Token} {depth : Nat}
    (settled : ParenthesizedSettled depth node word strays) (guarded : Guarded) (limit : Nat)
    (ended : Ended rest) :
    Settles (depth ≤ limit) (condition guarded (expression limit)) node word strays rest := by
  rcases settled with ⟨opening, inner, closing, rfl, isOpening, isClosing, settles⟩
  have orderly (node : Node) : Orderly (expect (.symbol .rightParen) (.conditionClosing guarded)
      >>= fun _ => pure node) :=
    (Orderly.expect (by simp) _).bind fun _ => Orderly.pure _
  have clear : Clear ([closing] ++ rest) :=
    clear_of_kind isClosing (by simp) (by simp [Level.all, Level.accepts]) rest
  have inside := (settles limit ([closing] ++ rest) (ended.append_left _) clear).before orderly
    (takes_expect_pure isClosing (.conditionClosing guarded) node rest)
  rw [List.append_nil] at inside
  exact Settles.after (takes_expect isOpening _ _) inside

theorem StatementSettled.ifThen {lead : Token} {condition thenBranch : Node}
    {conditionWord thenWord conditionStrays thenStrays : List Token} {depth thenDepth : Nat}
    (isLead : lead.kind = .keyword .kwIf)
    (conditionSettled : ParenthesizedSettled depth condition conditionWord conditionStrays)
    (thenSettled : StatementSettled thenDepth thenBranch thenWord thenStrays) :
    StatementSettled (max depth thenDepth + 1) (.ifStmt condition thenBranch .absent)
      (lead :: (conditionWord ++ thenWord)) (conditionStrays ++ thenStrays) := by
  refine StatementSettled.of_rule fun limit rest ended stopped => ?_
  rcases ended.exists_cons with ⟨next, tail, rfl⟩
  have noElse : next.kind ≠ .keyword .kwElse := fun isElse =>
    stopped next (by simp) ⟨rfl, isElse⟩
  have refused : (next.kind == .keyword .kwElse) = false := by simpa using noElse
  have thenStopped : Stopped thenBranch (next :: tail) := by
    rintro token ⟨⟩ ⟨_, isElse⟩
    exact noElse isElse
  have ends : Takes (elseRest (statement limit) condition thenBranch)
      (.ifStmt condition thenBranch .absent) [] [] (next :: tail) := by
    intro cursor split
    rw [elseRest, bind_apply_ok (accept?_apply_none split refused)]
    exact Takes.pure _ _ cursor split
  have branch := (thenSettled limit (next :: tail) ended thenStopped).before
    (Orderly.elseRest (Orderly.statement limit) condition) ends
  rw [List.append_nil, List.append_nil] at branch
  apply Settles.of_lead (by simp [isLead, leadsStatement])
  simp only [isLead, ifRest_eq]
  exact ((Settles.condition conditionSettled .branch limit (ended.append_left _)).bind
    (fun condition =>
      (Orderly.statement limit).bind (Orderly.elseRest (Orderly.statement limit) condition))
    branch).congr Nat.max_le.symm

theorem StatementSettled.ifElse {lead middle : Token} {condition thenBranch elseBranch : Node}
    {conditionWord thenWord elseWord conditionStrays thenStrays elseStrays : List Token}
    {depth thenDepth elseDepth : Nat} (isLead : lead.kind = .keyword .kwIf)
    (conditionSettled : ParenthesizedSettled depth condition conditionWord conditionStrays)
    (thenSettled : StatementSettled thenDepth thenBranch thenWord thenStrays)
    (closed : thenBranch.endsOpen = false) (isElse : middle.kind = .keyword .kwElse)
    (elseSettled : StatementSettled elseDepth elseBranch elseWord elseStrays)
    (present : elseBranch ≠ .absent) :
    StatementSettled (max depth (max thenDepth elseDepth) + 1)
      (.ifStmt condition thenBranch elseBranch)
      (lead :: (conditionWord ++ (thenWord ++ middle :: elseWord)))
      (conditionStrays ++ (thenStrays ++ elseStrays)) := by
  refine StatementSettled.of_rule fun limit rest ended stopped => ?_
  have elseStopped : Stopped elseBranch rest := by
    intro token isNext
    have open' := stopped token isNext
    rwa [statementGoesOn, endsOpen_ifElse present] at open'
  have thenStopped : Stopped thenBranch ((middle :: elseWord) ++ rest) := by
    rintro token ⟨⟩ ⟨isOpen, _⟩
    simp [closed] at isOpen
  have accepted : (middle.kind == .keyword .kwElse) = true := by simpa using isElse
  have tail : Settles (elseDepth ≤ limit) (elseRest (statement limit) condition thenBranch)
      (.ifStmt condition thenBranch elseBranch) (middle :: elseWord) elseStrays rest :=
    Settles.after (takes_accept?_some accepted _)
      ((elseSettled limit rest ended elseStopped).map (Node.ifStmt condition thenBranch))
  have branches := (thenSettled limit _ (ended.append_left _) thenStopped).bind
    (Orderly.elseRest (Orderly.statement limit) condition) tail
  apply Settles.of_lead (by simp [isLead, leadsStatement])
  simp only [isLead, ifRest_eq]
  refine ((Settles.condition conditionSettled .branch limit (ended.append_left _)).bind
    (fun condition =>
      (Orderly.statement limit).bind (Orderly.elseRest (Orderly.statement limit) condition))
    branches).congr ?_
  rw [Nat.max_le, Nat.max_le]

theorem StatementSettled.whileDo {lead : Token} {condition body : Node}
    {conditionWord bodyWord conditionStrays bodyStrays : List Token} {depth bodyDepth : Nat}
    (isLead : lead.kind = .keyword .kwWhile)
    (conditionSettled : ParenthesizedSettled depth condition conditionWord conditionStrays)
    (bodySettled : StatementSettled bodyDepth body bodyWord bodyStrays) :
    StatementSettled (max depth bodyDepth + 1) (.whileStmt condition body)
      (lead :: (conditionWord ++ bodyWord)) (conditionStrays ++ bodyStrays) := by
  refine StatementSettled.of_rule fun limit rest ended stopped => ?_
  have loop := (bodySettled limit rest ended stopped).map (Node.whileStmt condition)
  apply Settles.of_lead (by simp [isLead, leadsStatement])
  simp only [isLead]
  exact ((Settles.condition conditionSettled .loop limit (ended.append_left _)).bind
    (fun condition =>
      (Orderly.statement limit).bind fun body => Orderly.pure (Node.whileStmt condition body))
    loop).congr Nat.max_le.symm

/-! ## Declarations -/

theorem DeclarationSettled.of_rule {node : Node} {word strays : List Token} {depth : Nat}
    (settles : ∀ limit rest, Ended rest → Stopped node rest →
      Settles (depth ≤ limit) (bareDeclaration (expression limit) (statement limit)) node word
        strays rest) : DeclarationSettled depth node word strays := by
  intro limit rest ended stopped
  have bare := settles limit rest ended stopped
  exact ⟨fun fitting => takes_declarationOf (bare.takes fitting),
    fun tooDeep => givesUp_declarationOf (bare.givesUp tooDeep)⟩

theorem DeclarationSettled.statement {node : Node} {word strays : List Token} {depth : Nat}
    (clause : Clause .statement node word strays)
    (settled : StatementSettled depth node word strays) :
    DeclarationSettled depth node word strays := by
  obtain ⟨token, tail, rfl, _, noVar⟩ := clause.head (by simp)
  refine DeclarationSettled.of_rule fun limit rest ended stopped => ?_
  have refused : (token.kind == .keyword .kwVar) = false := by simpa using noVar rfl
  have looks : Takes (accept? (· == .keyword .kwVar)) none [] [] (token :: tail ++ rest) :=
    takes_accept?_none refused _
  exact Settles.after looks (settled limit rest ended stopped)

theorem DeclarationSettled.var {lead name semicolon : Token}
    (isLead : lead.kind = .keyword .kwVar) (isName : name.kind = .identifier)
    (isSemicolon : semicolon.kind = .symbol .semicolon) :
    DeclarationSettled 0 (.varStmt name .absent) [lead, name, semicolon] [] := by
  refine DeclarationSettled.of_rule fun limit rest _ _ => ?_
  have accepted : (lead.kind == .keyword .kwVar) = true := by simpa using isLead
  have refused : (semicolon.kind == .symbol .equal) = false := by simp [isSemicolon]
  have looks : Takes (accept? (· == .symbol .equal)) none [] [] ([semicolon] ++ rest) :=
    takes_accept?_none refused rest
  have names : Takes (expect .identifier .variableName) name [name] [] ([semicolon] ++ rest) :=
    takes_expect isName _ _
  have ends := takes_sentenceEnd isSemicolon .declaration (Node.varStmt name .absent) rest
  have whole : Takes (varRest (expression limit)) (.varStmt name .absent) [name, semicolon] []
      rest :=
    Takes.bind names (Takes.bind looks ends)
  have all : Takes (bareDeclaration (expression limit) (Grammar.statement limit))
      (.varStmt name .absent) [lead, name, semicolon] [] rest :=
    Takes.bind (takes_accept?_some accepted _) whole
  exact (Settles.of_takes all).congr (by simp)

theorem DeclarationSettled.varInit {lead name equal semicolon : Token} {initializer : Node}
    {word strays : List Token} {depth : Nat} (isLead : lead.kind = .keyword .kwVar)
    (isName : name.kind = .identifier) (isEqual : equal.kind = .symbol .equal)
    (settled : ExpressionSettled depth initializer word strays)
    (isSemicolon : semicolon.kind = .symbol .semicolon) :
    DeclarationSettled depth (.varStmt name initializer)
      (lead :: name :: equal :: (word ++ [semicolon])) strays := by
  refine DeclarationSettled.of_rule fun limit rest ended _ => ?_
  have accepted : (lead.kind == .keyword .kwVar) = true := by simpa using isLead
  have acceptedEqual : (equal.kind == .symbol .equal) = true := by simpa using isEqual
  have value := (settled limit ([semicolon] ++ rest) (ended.append_left _)
    (clear_semicolon isSemicolon rest)).sentence isSemicolon .declaration (Node.varStmt name)
  have whole : Settles (depth ≤ limit) (varRest (expression limit)) (.varStmt name initializer)
      (name :: equal :: (word ++ [semicolon])) strays rest :=
    Settles.after (takes_expect isName _ _)
      (Settles.after (takes_accept?_some acceptedEqual _) value)
  exact Settles.after (takes_accept?_some accepted _) whole

/-! ## Bodies -/

theorem BodySettled.empty : BodySettled 0 [] [] [] := by
  intro limit ends item collected rest _ ended ending
  rcases ended.exists_cons with ⟨next, tail, rfl⟩
  refine (Settles.of_takes fun cursor split => ?_).congr (by simp)
  have past := Cursor.Past.refl cursor
  rw [show cursor.ahead = next :: tail from split] at past
  rw [List.append_nil]
  exact ⟨cursor, collectAll_apply_ends split (ending next (by simp)), past⟩

theorem Ending.stopped {limit : Nat} {ends : TokenKind → Bool} {item : Parser (Option Node)}
    (itemizes : Itemizes limit ends item) {tokens : List Token} (ending : Ending ends tokens)
    (node : Node) : Stopped node tokens := by
  rintro token isNext ⟨_, isElse⟩
  have isEnd := ending token isNext
  rcases itemizes.ends_cases isEnd with same | same <;> simp [same] at isElse

theorem startsDeclaration.ends_eq_false {limit : Nat} {ends : TokenKind → Bool}
    {item : Parser (Option Node)} (itemizes : Itemizes limit ends item) {kind : TokenKind}
    (starts : startsDeclaration kind) : ends kind = false := by
  cases isEnd : ends kind with
  | false => rfl
  | true =>
      rcases starts with ⟨notEof, notBrace, _⟩
      rcases itemizes.ends_cases isEnd with same | same
      · exact absurd same notEof
      · exact absurd same notBrace

/-- What follows a declaration in a body does not make it a longer one. -/
theorem Clause.stopped_before {limit : Nat} {ends : TokenKind → Bool}
    {item : Parser (Option Node)} (itemizes : Itemizes limit ends item) {nodes : List Node}
    {word strays rest : List Token} (body : Clause .body (.blockStmt nodes) word strays)
    (ending : Ending ends rest) (node : Node) : Stopped node (word ++ rest) := by
  cases body with
  | empty => exact ending.stopped itemizes node
  | item clause _ =>
      rcases clause.head (by simp) with ⟨token, tail, rfl, starts, _⟩
      rintro next ⟨⟩ ⟨_, isElse⟩
      exact starts.2.2 isElse

theorem BodySettled.item {node : Node} {nodes : List Node}
    {word restWord strays restStrays : List Token} {depth restDepth : Nat}
    (clause : Clause .declaration node word strays)
    (settled : DeclarationSettled depth node word strays)
    (rest : Clause .body (.blockStmt nodes) restWord restStrays)
    (restSettled : BodySettled restDepth nodes restWord restStrays) :
    BodySettled (max depth restDepth) (node :: nodes) (word ++ restWord)
      (strays ++ restStrays) := by
  intro limit ends item collected tokens itemizes ended ending
  have restEnded := ended.append_left restWord
  have first := itemizes.settles restEnded
    (settled limit (restWord ++ tokens) restEnded (rest.stopped_before itemizes ending node))
  have others := restSettled limit ends item (node :: collected) tokens itemizes ended ending
  have both := first.bind (fun found =>
    Orderly.collectAll ends itemizes.orderly (found.toList ++ collected)) others
  rw [List.reverse_cons, List.append_assoc] at both
  rcases clause.head (by simp) with ⟨token, tail, rfl, starts, _⟩
  refine (both.look fun cursor split => ?_).congr Nat.max_le.symm
  refine collectAll_apply_item itemizes.orderly itemizes.proceeds split
    (starts.ends_eq_false itemizes) ?_
  rw [split]
  exact ended.append_left _

theorem StatementSettled.block {opening closing : Token} {nodes : List Node}
    {word strays : List Token} {depth : Nat} (isOpening : opening.kind = .symbol .leftBrace)
    (settled : BodySettled depth nodes word strays)
    (isClosing : closing.kind = .symbol .rightBrace) :
    StatementSettled (depth + 1) (.blockStmt nodes) (opening :: (word ++ [closing])) strays := by
  refine StatementSettled.of_rule fun limit rest ended _ => ?_
  have ending : Ending endsBlock ([closing] ++ rest) := by
    rintro token ⟨⟩
    simp [isClosing, endsBlock]
  have body := settled limit endsBlock (declaration limit) [] ([closing] ++ rest)
    (itemizes_declaration limit) (ended.append_left _) ending
  have orderly (nodes : List Node) :
      Orderly ((modify fun cursor : Cursor => { cursor with openBlocks := cursor.openBlocks - 1 })
        >>= fun _ => expect (.symbol .rightBrace) .blockClosing >>= fun _ =>
          pure (Node.blockStmt nodes)) :=
    (Orderly.modifyOpenBlocks _).bind fun _ => (Orderly.expect (by simp) _).bind fun _ =>
      Orderly.pure _
  have ends := Takes.unseen (takes_modifyOpenBlocks fun cursor => cursor.openBlocks - 1)
    (takes_expect_pure isClosing .blockClosing (Node.blockStmt nodes) rest)
  have inside := body.before orderly ends
  rw [List.append_nil] at inside
  apply Settles.of_lead (by simp [isOpening, leadsStatement])
  simp only [isOpening]
  exact Settles.after (takes_modifyOpenBlocks _ _) inside

/-! ## Programs -/

/-- A clause is settled at the depth of its nesting, which is that of its tree if no
token of it is stray. -/
theorem Clause.settled {part : Part} {node : Node} {word strays : List Token}
    (clause : Clause part node word strays) :
    ∃ depth, ClauseSettled part depth node word strays ∧
      (strays = [] → ClauseNests part depth node) := by
  induction clause with
  | expression phrase isSemicolon =>
      obtain ⟨depth, settled, nests⟩ := phrase.settled
      refine ⟨depth + 1, StatementSettled.expression phrase settled isSemicolon,
        fun clean => ?_⟩
      rw [ClauseNests, nests clean, Node.nesting]
  | print isLead phrase isSemicolon =>
      obtain ⟨depth, settled, nests⟩ := phrase.settled
      refine ⟨depth + 1, StatementSettled.print isLead settled isSemicolon, fun clean => ?_⟩
      rw [ClauseNests, nests clean, Node.nesting]
  | ifThen isLead phrase _ inductionHypothesis =>
      obtain ⟨depth, settled, nests⟩ := phrase.settled
      obtain ⟨thenDepth, thenSettled, thenNests⟩ := inductionHypothesis
      refine ⟨_, StatementSettled.ifThen isLead settled thenSettled, fun clean => ?_⟩
      obtain ⟨conditionClean, thenClean⟩ := List.append_eq_nil_iff.mp clean
      rw [ClauseNests, nests conditionClean, thenNests thenClean]
      simp [Node.nesting]
  | ifElse isLead phrase _ closed isElse elseClause thenHypothesis elseHypothesis =>
      obtain ⟨depth, settled, nests⟩ := phrase.settled
      obtain ⟨thenDepth, thenSettled, thenNests⟩ := thenHypothesis
      obtain ⟨elseDepth, elseSettled, elseNests⟩ := elseHypothesis
      refine ⟨_, StatementSettled.ifElse isLead settled thenSettled closed isElse elseSettled
        elseClause.ne_absent, fun clean => ?_⟩
      obtain ⟨conditionClean, branchesClean⟩ := List.append_eq_nil_iff.mp clean
      obtain ⟨thenClean, elseClean⟩ := List.append_eq_nil_iff.mp branchesClean
      rw [ClauseNests, nests conditionClean, thenNests thenClean, elseNests elseClean,
        Node.nesting]
  | whileDo isLead phrase _ inductionHypothesis =>
      obtain ⟨depth, settled, nests⟩ := phrase.settled
      obtain ⟨bodyDepth, bodySettled, bodyNests⟩ := inductionHypothesis
      refine ⟨_, StatementSettled.whileDo isLead settled bodySettled, fun clean => ?_⟩
      obtain ⟨conditionClean, bodyClean⟩ := List.append_eq_nil_iff.mp clean
      rw [ClauseNests, nests conditionClean, bodyNests bodyClean, Node.nesting]
  | block isOpening _ isClosing inductionHypothesis =>
      obtain ⟨depth, settled, nests⟩ := inductionHypothesis
      refine ⟨_, StatementSettled.block isOpening (settled _ rfl) isClosing, fun clean => ?_⟩
      rw [ClauseNests, nests clean _ rfl, Node.nesting]
  | statement clause inductionHypothesis =>
      obtain ⟨depth, settled, nests⟩ := inductionHypothesis
      exact ⟨depth, DeclarationSettled.statement clause settled, nests⟩
  | var isLead isName isSemicolon =>
      exact ⟨0, DeclarationSettled.var isLead isName isSemicolon, fun _ => by
        rw [ClauseNests, Node.nesting]⟩
  | varInit isLead isName isEqual phrase isSemicolon =>
      obtain ⟨depth, settled, nests⟩ := phrase.settled
      refine ⟨depth, DeclarationSettled.varInit isLead isName isEqual settled isSemicolon,
        fun clean => ?_⟩
      have present := ne_absent_of_isExpression (phrase.reads clean).canonical
      rw [ClauseNests, nests clean, nesting_varInit present]
  | empty =>
      refine ⟨0, ?_, ?_⟩
      · rintro nodes ⟨⟩
        exact BodySettled.empty
      · rintro _ nodes ⟨⟩
        rfl
  | item clause rest clauseHypothesis restHypothesis =>
      obtain ⟨depth, settled, nests⟩ := clauseHypothesis
      obtain ⟨restDepth, restSettled, restNests⟩ := restHypothesis
      refine ⟨max depth restDepth, ?_, ?_⟩
      · rintro nodes ⟨⟩
        exact BodySettled.item clause settled rest (restSettled _ rfl)
      · rintro clean nodes ⟨⟩
        obtain ⟨itemClean, restClean⟩ := List.append_eq_nil_iff.mp clean
        rw [nests itemClean, restNests restClean _ rfl, Node.nestingOfAll]

/-- A program is taken up to the end of the source, unless it is nested too
deeply. -/
theorem Body.settled {nodes : List Node} {word strays : List Token}
    (body : Body nodes word strays) :
    ∃ depth, (∀ limit rest, Ended rest → Ending endsSource rest →
      Settles (depth ≤ limit) (program limit) nodes word strays rest) ∧
      (strays = [] → depth = Node.nestingOfAll nodes) := by
  obtain ⟨depth, settled, nests⟩ := Clause.settled body
  refine ⟨depth, fun limit rest ended ending => ?_, fun clean => nests clean nodes rfl⟩
  rw [program, many_eq]
  exact settled nodes rfl limit endsSource (topDeclaration limit) [] rest
    (itemizes_topDeclaration limit) ended ending

end TreeWalker.Grammar
