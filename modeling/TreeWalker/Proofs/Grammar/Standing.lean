import TreeWalker.Proofs.Grammar.Advance

/-!
# Where a cursor stands

A parser changes its cursor in three ways: it passes the next token, it notes an
error, or it opens or closes a block.  What survives these survives every parser.
In particular a cursor always stands at a place of the token list it started in,
and knows the kind of the token before it.  An error is noted at a token that the
cursor has stood at, so the token it names is the one at its position.
-/

namespace TreeWalker.Grammar

variable {limit : Nat}

variable {α β : Type}

/-- A property of cursors that survives whatever a parser does with them. -/
structure Lasting (holds : Cursor → Prop) : Prop where
  passes : ∀ cursor token rest, cursor.ahead = token :: rest → holds cursor →
    holds (cursor.after token rest)
  notes : ∀ cursor errors, holds cursor → holds { cursor with errors := errors }
  blocks : ∀ cursor count, holds cursor → holds { cursor with openBlocks := count }

/-- A property of cursors that survives whatever a parser does with them, where an error
is noted at a token that a cursor with the property has stood at. -/
structure Enduring (holds : Cursor → Prop) : Prop where
  passes : ∀ cursor token rest, cursor.ahead = token :: rest → holds cursor →
    holds (cursor.after token rest)
  notes : ∀ cursor earlier token rest fault, earlier.ahead = token :: rest → holds earlier →
    holds cursor →
      holds { cursor with errors := cursor.errors ++ [⟨earlier.position, token, fault⟩] }
  blocks : ∀ cursor count, holds cursor → holds { cursor with openBlocks := count }

theorem Lasting.enduring {holds : Cursor → Prop} (lasting : Lasting holds) : Enduring holds where
  passes := lasting.passes
  notes := fun cursor _ _ _ _ _ _ => lasting.notes cursor _
  blocks := lasting.blocks

/-- A parser that keeps a property of its cursor, however it ends. -/
def Keeps (holds : Cursor → Prop) (parser : Parser α) : Prop :=
  ∀ cursor, holds cursor → holds (cursorOf (parser cursor))

namespace Keeps

variable {holds : Cursor → Prop} {parser : Parser α}

theorem pure (a : α) : Keeps holds (Pure.pure a : Parser α) := fun _ => id

theorem throw (stop : Stop) : Keeps holds (MonadExcept.throw stop : Parser α) := fun _ => id

theorem get : Keeps holds (MonadState.get : Parser Cursor) := fun _ => id

theorem bind {next : α → Parser β} (first : Keeps holds parser)
    (second : ∀ a, Keeps holds (next a)) : Keeps holds (parser >>= next) := by
  intro cursor start
  have middle := first cursor start
  rw [bind_apply]
  cases run : parser cursor with
  | error stop after =>
      rw [run] at middle
      exact middle
  | ok a after =>
      rw [run] at middle
      exact second a after middle

theorem nextToken : Keeps holds nextToken := by
  intro cursor start
  unfold Grammar.nextToken
  split <;> exact start

section Tokens

variable (enduring : Enduring holds)

include enduring

theorem passToken : Keeps holds passToken := by
  intro cursor start
  cases split : cursor.ahead with
  | nil => simpa [Grammar.passToken, split] using start
  | cons token rest =>
      rw [passToken_apply split]
      exact enduring.passes cursor token rest split start

/-- An error is noted at a token that the cursor has stood at. -/
theorem note {earlier : Cursor} {token : Token} {rest : List Token}
    (split : earlier.ahead = token :: rest) (stood : holds earlier) (fault : Fault) :
    Keeps holds (note earlier.position token fault) :=
  fun cursor start => enduring.notes cursor earlier token rest fault split stood start

theorem modifyOpenBlocks (change : Cursor → Nat) :
    Keeps holds (modify fun cursor => { cursor with openBlocks := change cursor }) :=
  fun cursor start => enduring.blocks cursor _ start

theorem noteNext (fault : Fault) : Keeps holds (noteNext fault) := by
  intro cursor start
  cases split : cursor.ahead with
  | nil =>
      rw [noteNext_apply_nil split]
      exact start
  | cons token rest =>
      rw [noteNext_apply split]
      exact note enduring split start fault cursor start

theorem reject (fault : Fault) : Keeps holds (reject fault : Parser α) :=
  (noteNext enduring fault).bind fun _ => throw .rejected

/-- What comes of a token that may be there. -/
theorem accept {accepts : TokenKind → Bool} {next : Option Token → Parser β}
    (found : ∀ token, Keeps holds (next (some token))) (missing : Keeps holds (next none)) :
    Keeps holds (accept? accepts >>= next) := by
  refine bind (nextToken.bind fun token => ?_) fun
    | none => missing
    | some token => found token
  split
  · exact (passToken enduring).bind fun _ => pure _
  · exact pure _

theorem expect (kind : TokenKind) (fault : Fault) : Keeps holds (expect kind fault) :=
  accept enduring pure (reject enduring fault)

/-! ## Expressions -/

section Expressions

variable {operand nested : Parser Node}

theorem chain (level : Level) (operands : Keeps holds operand) (fuel : Nat) (left : Node)
    (operator : Token) : Keeps holds (chain level operand fuel left operator) := by
  induction fuel generalizing left operator with
  | zero => exact throw .exhausted
  | succ fuel inductionHypothesis =>
      exact operands.bind fun right => accept enduring (inductionHypothesis _) (pure _)

theorem operations (operands : Keeps holds operand) (levels : List Level) :
    Keeps holds (operations operand levels) := by
  induction levels with
  | nil => exact operands
  | cons level tighter inductionHypothesis =>
      exact inductionHypothesis.bind fun left => accept enduring
        (fun operator => get.bind fun _ => chain enduring level inductionHypothesis _ left operator)
        (pure left)

theorem atom (inner : Keeps holds nested) : Keeps holds (atom nested) := by
  refine nextToken.bind fun token => ?_
  split
  · exact (passToken enduring).bind fun _ => pure _
  · split
    · exact (passToken enduring).bind fun _ => pure _
    · exact (passToken enduring).bind fun _ => inner.bind fun _ =>
        (expect enduring _ _).bind fun _ => pure _
    · exact reject enduring .expression

theorem assignTo {earlier : Cursor} {equal : Token} {rest : List Token}
    (split : earlier.ahead = equal :: rest) (stood : holds earlier) (target value : Node) :
    Keeps holds (assignTo target earlier.position equal value) := by
  cases target
  case reference name => exact pure _
  all_goals exact (note enduring split stood .assignmentTarget).bind fun _ => pure _

/-- The sign of an assignment is where the cursor has stood before it. -/
theorem assignmentRest (inner : Keeps holds nested) (target : Node) :
    Keeps holds (assignmentRest nested target) := by
  intro cursor start
  cases split : cursor.ahead with
  | nil =>
      rw [assignmentRest_apply_nil split]
      exact start
  | cons token rest =>
      by_cases isEqual : token.kind = .symbol .equal
      · rw [assignmentRest_apply_equal split isEqual]
        exact (inner.bind fun value => assignTo enduring split start target value) _
          (enduring.passes cursor token rest split start)
      · rw [assignmentRest_apply_other split isEqual]
        exact start

theorem expressionOf (operands : Keeps holds operand) (inner : Keeps holds nested) :
    Keeps holds (expressionOf operand nested) :=
  (operations enduring operands Level.all).bind fun target => assignmentRest enduring inner target

theorem operandOf (operands : Keeps holds operand) (inner : Keeps holds nested) :
    Keeps holds (operandOf operand nested) :=
  accept enduring (fun _ => operands.bind fun _ => pure _) (atom enduring inner)

end Expressions

theorem expression_and_operand (levels : Nat) :
    Keeps holds (expression levels) ∧ Keeps holds (operand levels) := by
  induction levels with
  | zero => exact ⟨throw .overNested, throw .overNested⟩
  | succ levels inductionHypothesis =>
      rcases inductionHypothesis with ⟨expressions, operands⟩
      exact ⟨expressionOf enduring operands expressions, operandOf enduring operands expressions⟩

theorem expression (levels : Nat) : Keeps holds (expression levels) :=
  (expression_and_operand enduring levels).1

/-! ## Recovery -/

theorem skipToBoundary (tokens : List Token) : Keeps holds (skipToBoundary tokens) := by
  induction tokens with
  | nil => exact throw .exhausted
  | cons token rest inductionHypothesis =>
      refine get.bind fun cursor => ?_
      split
      · exact pure ()
      · exact (passToken enduring).bind fun _ => inductionHypothesis

theorem recover (start : Nat) : Keeps holds (recover start) := by
  refine nextToken.bind fun token => get.bind fun cursor => ?_
  dsimp only
  split
  · exact (passToken enduring).bind fun _ => get.bind fun _ => skipToBoundary enduring _
  · exact get.bind fun _ => skipToBoundary enduring _

theorem recovering (keeps : Keeps holds parser) (start : Nat) :
    Keeps holds (recovering start parser) := by
  intro cursor begins
  have middle := keeps cursor begins
  cases run : parser cursor with
  | ok a after =>
      rw [run] at middle
      rw [recovering_apply_ok run]
      exact middle
  | error stop after =>
      rw [run] at middle
      by_cases rejected : stop = .rejected
      · subst rejected
        rw [recovering_apply_rejected run]
        exact ((recover enduring start).bind fun _ => pure none) after middle
      · rw [recovering_apply_error run rejected]
        exact middle

/-! ## Statements -/

section Statements

variable {expr nested : Parser Node}

theorem sentence (sentence : Sentence) (node : Node) :
    Keeps holds (do sentenceEnd sentence; return node) :=
  ((expect enduring _ _).bind fun _ => pure ()).bind fun _ => pure node

theorem condition (guarded : Guarded) (exprs : Keeps holds expr) :
    Keeps holds (condition guarded expr) :=
  (expect enduring _ _).bind fun _ => exprs.bind fun _ => (expect enduring _ _).bind fun _ => pure _

theorem ifRest (exprs : Keeps holds expr) (inner : Keeps holds nested) :
    Keeps holds (ifRest expr nested) :=
  (condition enduring .branch exprs).bind fun _ => inner.bind fun _ =>
    accept enduring (fun _ => inner.bind fun _ => pure _) (pure _)

theorem whileRest (exprs : Keeps holds expr) (inner : Keeps holds nested) :
    Keeps holds (whileRest expr nested) :=
  (condition enduring .loop exprs).bind fun _ => inner.bind fun _ => pure _

theorem varRest (exprs : Keeps holds expr) : Keeps holds (varRest expr) :=
  (expect enduring _ _).bind fun _ =>
    accept enduring (fun _ => exprs.bind fun _ => sentence enduring _ _) (sentence enduring _ _)

theorem declarationOf (exprs : Keeps holds expr) (inner : Keeps holds nested) :
    Keeps holds (declarationOf expr nested) :=
  get.bind fun _ =>
    recovering enduring (accept enduring (fun _ => varRest enduring exprs) inner) _

omit enduring in
theorem many (ends : TokenKind → Bool) {item : Parser (Option α)} (items : Keeps holds item) :
    Keeps holds (many ends item) := by
  refine get.bind fun cursor => ?_
  generalize cursor.ahead.length = fuel, ([] : List α) = collected
  induction fuel generalizing collected with
  | zero =>
      refine nextToken.bind fun token => ?_
      split
      · exact pure _
      · exact throw .exhausted
  | succ fuel inductionHypothesis =>
      refine nextToken.bind fun token => ?_
      split
      · exact pure _
      · exact items.bind fun
          | some a => inductionHypothesis (a :: collected)
          | none => inductionHypothesis collected

theorem blockRest {item : Parser (Option Node)} (items : Keeps holds item) :
    Keeps holds (blockRest item) :=
  (modifyOpenBlocks enduring _).bind fun _ => (many endsBlock items).bind fun _ =>
    (modifyOpenBlocks enduring _).bind fun _ => (expect enduring _ _).bind fun _ => pure _

theorem statementOf (exprs : Keeps holds expr) (inner : Keeps holds nested) :
    Keeps holds (statementOf expr nested) := by
  refine accept enduring (fun lead => ?_) (exprs.bind fun _ => sentence enduring _ _)
  dsimp only
  split
  · exact exprs.bind fun _ => sentence enduring _ _
  · exact ifRest enduring exprs inner
  · exact whileRest enduring exprs inner
  · exact blockRest enduring (declarationOf enduring exprs inner)

end Statements

theorem statement (levels : Nat) : Keeps holds (statement levels) := by
  induction levels with
  | zero => exact throw .overNested
  | succ levels inductionHypothesis =>
      exact statementOf enduring (expression enduring levels) inductionHypothesis

theorem declaration (levels : Nat) : Keeps holds (declaration levels) :=
  declarationOf enduring (expression enduring levels) (statement enduring levels)

/-! ## Programs -/

theorem abandon (start : Nat) : Keeps holds (abandon start) :=
  (noteNext enduring .nesting).bind fun _ => (modifyOpenBlocks enduring _).bind fun _ =>
    recover enduring start

theorem abandoning {parser : Parser (Option α)} (keeps : Keeps holds parser) (start : Nat) :
    Keeps holds (abandoning start parser) := by
  intro cursor begins
  have middle := keeps cursor begins
  cases run : parser cursor with
  | ok found after =>
      rw [run] at middle
      rw [abandoning_apply_ok run]
      exact middle
  | error stop after =>
      rw [run] at middle
      by_cases overNested : stop = .overNested
      · subst overNested
        rw [abandoning_apply_overNested run]
        exact ((abandon enduring start).bind fun _ => pure none) after middle
      · rw [abandoning_apply_error run overNested]
        exact middle

theorem program (levels : Nat) : Keeps holds (program levels) :=
  many endsSource <| get.bind fun _ => abandoning enduring (declaration enduring levels) _

end Tokens

end Keeps

/-! ## The token before a cursor -/

/-- The cursor stands in a token list, after so many of its tokens. -/
def Cursor.StandsIn (tokens : List Token) (cursor : Cursor) : Prop :=
  ∃ passed, tokens = passed ++ cursor.ahead ∧ cursor.position = passed.length ∧
    cursor.last = passed.getLast?.map Token.kind

theorem Cursor.standsIn_atStart (tokens : List Token) :
    (Cursor.atStart tokens).StandsIn tokens :=
  ⟨[], rfl, rfl, rfl⟩

theorem lasting_standsIn (tokens : List Token) : Lasting (Cursor.StandsIn tokens) where
  passes := by
    rintro cursor token rest split ⟨passed, whole, place, _⟩
    refine ⟨passed ++ [token], ?_, ?_, ?_⟩
    · rw [whole, split]
      simp [Cursor.after]
    · simp [Cursor.after, place]
    · simp [Cursor.after]
  notes := fun _ _ => id
  blocks := fun _ _ => id

/-! ## The tokens that errors name -/

/-- The cursor stands in a token list, and every error noted names the token that is at
its position in the list. -/
structure Cursor.Blames (tokens : List Token) (cursor : Cursor) : Prop where
  stands : cursor.StandsIn tokens
  errors : ∀ error ∈ cursor.errors, tokens[error.position]? = some error.token

theorem Cursor.StandsIn.getElem? {tokens : List Token} {cursor : Cursor}
    (stands : cursor.StandsIn tokens) {token : Token} {rest : List Token}
    (split : cursor.ahead = token :: rest) : tokens[cursor.position]? = some token := by
  obtain ⟨passed, whole, place, _⟩ := stands
  rw [whole, split, place, List.getElem?_append_right (Nat.le_refl _), Nat.sub_self]
  rfl

theorem enduring_blames (tokens : List Token) : Enduring (Cursor.Blames tokens) where
  passes := fun cursor token rest split blames =>
    ⟨(lasting_standsIn tokens).passes cursor token rest split blames.stands, blames.errors⟩
  notes := fun _ _ _ _ _ split stood blames =>
    ⟨blames.stands, List.forall_mem_append.mpr
      ⟨blames.errors, List.forall_mem_singleton.mpr (stood.stands.getElem? split)⟩⟩
  blocks := fun _ _ blames => ⟨blames.stands, blames.errors⟩

theorem blames_program (levels : Nat) (tokens : List Token) :
    (cursorOf (program levels (Cursor.atStart tokens))).Blames tokens :=
  Keeps.program (enduring_blames tokens) levels (Cursor.atStart tokens)
    ⟨Cursor.standsIn_atStart tokens, fun _ => nofun⟩

/-- Every problem of a program is told of a token of the list that is parsed. -/
theorem exists_token_of_mem_diagnostics {tokens : List Token} {diagnostic : Diagnostic}
    (member : diagnostic ∈ (Parsed.ofProgram limit tokens).diagnostics) :
    ∃ token ∈ tokens, diagnostic.line = token.line ∧
      diagnostic.place = SyntaxError.place token := by
  have blames := blames_program limit tokens
  have told :
      diagnostic ∈ (cursorOf (program limit (Cursor.atStart tokens))).diagnostics := by
    unfold Parsed.ofProgram parseWith at member
    cases run : program limit (Cursor.atStart tokens) <;>
      simpa only [run, cursorOf] using member
  obtain ⟨error, noted, rfl⟩ := List.mem_map.mp told
  exact ⟨error.token, List.mem_of_getElem? (blames.errors error noted), rfl, rfl⟩

end TreeWalker.Grammar
