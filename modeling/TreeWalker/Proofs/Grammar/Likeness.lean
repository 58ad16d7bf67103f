import TreeWalker.Proofs.Grammar.Loop
import TreeWalker.Proofs.Tree.Likeness

/-!
# Parsing does not look at lines

On token lists that are alike, the parsers of the grammar move in step.  They
come to results that are alike, or stop for the same reason, and note the same
faults at tokens that are alike.  So no decision of the parser, and none of its
recovery, depends on a line.
-/

namespace TreeWalker

variable {limit : Nat}

/-- Token lists of one length, each token of one like that of the other. -/
abbrev Token.AllAlike (lines : Int → Int → Prop) : List Token → List Token → Prop :=
  List.Forall₂ (Token.Alike lines)

namespace Grammar

variable {lines : Int → Int → Prop} {α β α' β' : Type}

/-- The same fault at tokens that are alike. -/
structure SyntaxError.Alike (lines : Int → Int → Prop) (error error' : SyntaxError) : Prop where
  position : error.position = error'.position
  token : error.token.Alike lines error'.token
  fault : error.fault = error'.fault

/-- Cursors that differ in the lines of tokens only. -/
structure Cursor.Alike (lines : Int → Int → Prop) (cursor cursor' : Cursor) : Prop where
  ahead : Token.AllAlike lines cursor.ahead cursor'.ahead
  position : cursor.position = cursor'.position
  last : cursor.last = cursor'.last
  openBlocks : cursor.openBlocks = cursor'.openBlocks
  errors : List.Forall₂ (SyntaxError.Alike lines) cursor.errors cursor'.errors

theorem Cursor.Alike.atStart {tokens tokens' : List Token}
    (alike : Token.AllAlike lines tokens tokens') :
    (Cursor.atStart tokens).Alike lines (Cursor.atStart tokens') :=
  ⟨alike, rfl, rfl, rfl, .nil⟩

/-- Two parsers have ended in the same way, with results that are the same in the
given sense. -/
inductive EndsAlike (lines : Int → Int → Prop) (same : α → α' → Prop) :
    EStateM.Result Stop Cursor α → EStateM.Result Stop Cursor α' → Prop where
  | ok {a : α} {a' : α'} {after after' : Cursor} (results : same a a')
    (cursors : after.Alike lines after') : EndsAlike lines same (.ok a after) (.ok a' after')
  | error {stop : Stop} {after after' : Cursor} (cursors : after.Alike lines after') :
    EndsAlike lines same (.error stop after) (.error stop after')

/-- The parsers end in the same way wherever the cursors are alike. -/
def Parallel (lines : Int → Int → Prop) (same : α → α' → Prop) (parser : Parser α)
    (parser' : Parser α') : Prop :=
  ∀ cursor cursor' : Cursor, cursor.Alike lines cursor' →
    EndsAlike lines same (parser cursor) (parser' cursor')

/-! ## Decisions -/

theorem atBoundary_eq_of_alike {cursor cursor' : Cursor} (cursors : cursor.Alike lines cursor')
    (next : TokenKind) : atBoundary cursor next = atBoundary cursor' next := by
  simp only [atBoundary, cursors.last, cursors.openBlocks]

theorem literalValue?_eq_of_alike {token token' : Token} (tokens : token.Alike lines token') :
    literalValue? token = literalValue? token' := by
  rw [literalValue?, literalValue?, tokens.kind, tokens.literal]

theorem node_alike {level : Level} (member : level ∈ Level.all) {left left' right right' : Node}
    {operator operator' : Token} (lefts : left.Alike lines left')
    (operators : operator.Alike lines operator') (rights : right.Alike lines right') :
    (level.node left operator right).Alike lines (level.node left' operator' right') := by
  simp only [Level.all, List.mem_cons, List.not_mem_nil, or_false] at member
  rcases member with rfl | rfl | rfl | rfl | rfl | rfl
  · exact .logical lefts operators rights
  · exact .logical lefts operators rights
  all_goals exact .binary lefts operators rights

namespace Parallel

/-! ## Sequences -/

variable {same : α → α' → Prop} {same' : β → β' → Prop} {parser : Parser α} {parser' : Parser α'}

theorem pure {a : α} {a' : α'} (results : same a a') :
    Parallel lines same (pure a : Parser α) (pure a' : Parser α') :=
  fun _ _ cursors => .ok results cursors

theorem throw (stop : Stop) :
    Parallel lines same (throw stop : Parser α) (throw stop : Parser α') :=
  fun _ _ cursors => .error cursors

theorem get : Parallel lines (Cursor.Alike lines) (get : Parser Cursor) (get : Parser Cursor) :=
  fun _ _ cursors => .ok cursors cursors

theorem modifyOpenBlocks (change : Nat → Nat) :
    Parallel lines Eq
      (modify fun cursor : Cursor => { cursor with openBlocks := change cursor.openBlocks })
      (modify fun cursor : Cursor => { cursor with openBlocks := change cursor.openBlocks }) :=
  fun _ _ cursors => .ok rfl ⟨cursors.ahead, cursors.position, cursors.last,
    congrArg change cursors.openBlocks, cursors.errors⟩

theorem bind {next : α → Parser β} {next' : α' → Parser β'}
    (first : Parallel lines same parser parser')
    (second : ∀ a a', same a a' → Parallel lines same' (next a) (next' a')) :
    Parallel lines same' (parser >>= next) (parser' >>= next') := by
  intro cursor cursor' cursors
  rw [bind_apply, bind_apply]
  have ends := first cursor cursor' cursors
  generalize parser cursor = result, parser' cursor' = result' at ends
  cases ends with
  | ok results cursors => exact second _ _ results _ _ cursors
  | error cursors => exact .error cursors

/-! ## Tokens -/

theorem nextToken : Parallel lines (Token.Alike lines) nextToken nextToken := by
  intro cursor cursor' cursors
  obtain ⟨ahead, position, last, openBlocks, errors⟩ := cursor
  obtain ⟨ahead', position', last', openBlocks', errors'⟩ := cursor'
  cases cursors.ahead with
  | nil => exact .error cursors
  | cons token rest => exact .ok token cursors

theorem passToken : Parallel lines Eq passToken passToken := by
  intro cursor cursor' cursors
  obtain ⟨ahead, position, last, openBlocks, errors⟩ := cursor
  obtain ⟨ahead', position', last', openBlocks', errors'⟩ := cursor'
  cases cursors.ahead with
  | nil => exact .error cursors
  | cons token rest =>
      exact .ok rfl ⟨rest, congrArg (· + 1) cursors.position, congrArg some token.kind,
        cursors.openBlocks, cursors.errors⟩

theorem note {position position' : Nat} {token token' : Token} (positions : position = position')
    (tokens : token.Alike lines token') (fault : Fault) :
    Parallel lines Eq (note position token fault) (note position' token' fault) :=
  fun _ _ cursors => .ok rfl ⟨cursors.ahead, cursors.position, cursors.last, cursors.openBlocks,
    List.rel_append cursors.errors (.cons ⟨positions, tokens, rfl⟩ .nil)⟩

theorem noteNext (fault : Fault) : Parallel lines Eq (noteNext fault) (noteNext fault) :=
  nextToken.bind fun _ _ tokens => get.bind fun _ _ cursors => note cursors.position tokens fault

theorem reject (fault : Fault) :
    Parallel lines same (reject fault : Parser α) (reject fault : Parser α') :=
  (noteNext fault).bind fun _ _ _ => throw .rejected

theorem accept? (accepts : TokenKind → Bool) :
    Parallel lines (Option.Rel (Token.Alike lines)) (accept? accepts) (accept? accepts) := by
  refine nextToken.bind fun token token' tokens => ?_
  rw [tokens.kind]
  split
  · exact passToken.bind fun _ _ _ => pure (.some tokens)
  · exact pure .none

/-- What comes of a token that may be there. -/
theorem accept {accepts : TokenKind → Bool} {next : Option Token → Parser β}
    {next' : Option Token → Parser β'}
    (found : ∀ token token' : Token, token.Alike lines token' →
      Parallel lines same' (next (some token)) (next' (some token')))
    (missing : Parallel lines same' (next none) (next' none)) :
    Parallel lines same' (Grammar.accept? accepts >>= next)
      (Grammar.accept? accepts >>= next') := by
  refine (accept? accepts).bind fun _ _ alike => ?_
  cases alike with
  | some tokens => exact found _ _ tokens
  | none => exact missing

theorem expect (kind : TokenKind) (fault : Fault) :
    Parallel lines (Token.Alike lines) (expect kind fault) (expect kind fault) :=
  accept (fun _ _ tokens => pure tokens) (reject fault)

theorem collect {ends : TokenKind → Bool} {item : Parser (Option α)} {item' : Parser (Option α')}
    (items : Parallel lines (Option.Rel same) item item') (fuel : Nat) {collected : List α}
    {collected' : List α'} (results : List.Forall₂ same collected collected') :
    Parallel lines (List.Forall₂ same) (collect ends item fuel collected)
      (collect ends item' fuel collected') := by
  induction fuel generalizing collected collected' with
  | zero =>
      refine nextToken.bind fun token token' tokens => ?_
      rw [tokens.kind]
      split
      · exact pure (List.rel_reverse results)
      · exact throw .exhausted
  | succ fuel inductionHypothesis =>
      refine nextToken.bind fun token token' tokens => ?_
      rw [tokens.kind]
      split
      · exact pure (List.rel_reverse results)
      · refine items.bind fun _ _ alike => ?_
        cases alike with
        | some found => exact inductionHypothesis (.cons found results)
        | none => exact inductionHypothesis results

theorem many (ends : TokenKind → Bool) {item : Parser (Option α)} {item' : Parser (Option α')}
    (items : Parallel lines (Option.Rel same) item item') :
    Parallel lines (List.Forall₂ same) (many ends item) (many ends item') := by
  refine get.bind fun cursor cursor' cursors => ?_
  rw [cursors.ahead.length_eq]
  exact collect items _ .nil

/-! ## Recovery -/

theorem skipToBoundary {tokens tokens' : List Token} (alike : Token.AllAlike lines tokens tokens') :
    Parallel lines Eq (skipToBoundary tokens) (skipToBoundary tokens') := by
  induction alike with
  | nil => exact throw .exhausted
  | @cons token token' rest rest' tokens _ inductionHypothesis =>
      refine get.bind fun cursor cursor' cursors => ?_
      rw [tokens.kind, atBoundary_eq_of_alike cursors]
      split
      · exact pure rfl
      · exact passToken.bind fun _ _ _ => inductionHypothesis

theorem recover (start : Nat) : Parallel lines Eq (recover start) (recover start) := by
  refine nextToken.bind fun token token' tokens => get.bind fun cursor cursor' cursors => ?_
  dsimp only
  rw [tokens.kind, cursors.position]
  split
  · exact passToken.bind fun _ _ _ => get.bind fun _ _ cursors => skipToBoundary cursors.ahead
  · exact get.bind fun _ _ cursors => skipToBoundary cursors.ahead

theorem recovering (start : Nat) (parsers : Parallel lines same parser parser') :
    Parallel lines (Option.Rel same) (recovering start parser) (recovering start parser') := by
  intro cursor cursor' cursors
  have ends := parsers cursor cursor' cursors
  unfold Grammar.recovering
  generalize parser cursor = result, parser' cursor' = result' at ends
  cases ends with
  | ok results cursors => exact .ok (.some results) cursors
  | @error stop _ _ cursors =>
      cases stop with
      | rejected => exact (recover start).bind (fun _ _ _ => pure .none) _ _ cursors
      | _ => exact .error cursors

theorem abandon (start : Nat) : Parallel lines Eq (abandon start) (abandon start) :=
  (noteNext .nesting).bind fun _ _ _ =>
    (modifyOpenBlocks fun _ => 0).bind fun _ _ _ => recover start

theorem abandoning (start : Nat) {parser : Parser (Option α)} {parser' : Parser (Option α')}
    (parsers : Parallel lines (Option.Rel same) parser parser') :
    Parallel lines (Option.Rel same) (abandoning start parser) (abandoning start parser') := by
  intro cursor cursor' cursors
  have ends := parsers cursor cursor' cursors
  unfold Grammar.abandoning
  generalize parser cursor = result, parser' cursor' = result' at ends
  cases ends with
  | ok results cursors => exact .ok results cursors
  | @error stop _ _ cursors =>
      cases stop with
      | overNested => exact (abandon start).bind (fun _ _ _ => pure .none) _ _ cursors
      | _ => exact .error cursors

/-! ## Expressions -/

section Expressions

variable {operand nested : Parser Node}

theorem chain {level : Level} (member : level ∈ Level.all)
    (operands : Parallel lines (Node.Alike lines) operand operand) (fuel : Nat)
    {left left' : Node} {operator operator' : Token} (lefts : left.Alike lines left')
    (operators : operator.Alike lines operator') :
    Parallel lines (Node.Alike lines) (chain level operand fuel left operator)
      (chain level operand fuel left' operator') := by
  induction fuel generalizing left left' operator operator' with
  | zero => exact throw .exhausted
  | succ fuel inductionHypothesis =>
      refine operands.bind fun _ _ rights => ?_
      have grown := node_alike member lefts operators rights
      exact accept (fun _ _ next => inductionHypothesis grown next) (pure grown)

theorem operations {levels : List Level} (members : ∀ level ∈ levels, level ∈ Level.all)
    (operands : Parallel lines (Node.Alike lines) operand operand) :
    Parallel lines (Node.Alike lines) (operations operand levels) (operations operand levels) := by
  induction levels with
  | nil => exact operands
  | cons level tighter inductionHypothesis =>
      have inner := inductionHypothesis fun other member =>
        members other (List.mem_cons_of_mem _ member)
      refine inner.bind fun _ _ lefts => accept (fun _ _ operators => ?_) (pure lefts)
      refine get.bind fun cursor cursor' cursors => ?_
      rw [cursors.ahead.length_eq]
      exact chain (members level List.mem_cons_self) inner _ lefts operators

theorem atom (inner : Parallel lines (Node.Alike lines) nested nested) :
    Parallel lines (Node.Alike lines) (atom nested) (atom nested) := by
  refine nextToken.bind fun token token' tokens => ?_
  rw [literalValue?_eq_of_alike tokens, tokens.kind]
  cases Grammar.literalValue? token' with
  | some value => exact passToken.bind fun _ _ _ => pure .literal
  | none =>
      dsimp only
      split
      · exact passToken.bind fun _ _ _ => pure (.reference tokens)
      · exact passToken.bind fun _ _ _ => inner.bind fun _ _ inside =>
          (expect _ _).bind fun _ _ _ => pure (.grouping inside)
      · exact reject _

theorem assignTo {target target' value value' : Node} {position position' : Nat}
    {equal equal' : Token} (targets : target.Alike lines target') (positions : position = position')
    (equals : equal.Alike lines equal') (values : value.Alike lines value') :
    Parallel lines (Node.Alike lines) (assignTo target position equal value)
      (assignTo target' position' equal' value') := by
  cases targets
  case reference names => exact pure (.assign names values)
  all_goals
    refine (note positions equals .assignmentTarget).bind fun _ _ _ => pure ?_
    constructor <;> assumption

theorem expressionOf (operands : Parallel lines (Node.Alike lines) operand operand)
    (inner : Parallel lines (Node.Alike lines) nested nested) :
    Parallel lines (Node.Alike lines) (expressionOf operand nested) (expressionOf operand nested) :=
  (operations (fun _ => id) operands).bind fun _ _ targets =>
    get.bind fun _ _ cursors =>
      accept (fun _ _ equals => inner.bind fun _ _ values =>
        assignTo targets cursors.position equals values) (pure targets)

theorem operandOf (operands : Parallel lines (Node.Alike lines) operand operand)
    (inner : Parallel lines (Node.Alike lines) nested nested) :
    Parallel lines (Node.Alike lines) (operandOf operand nested) (operandOf operand nested) :=
  accept (fun _ _ operators => operands.bind fun _ _ operands => pure (.unary operators operands))
    (atom inner)

theorem expression_and_operand (levels : Nat) :
    Parallel lines (Node.Alike lines) (expression levels) (expression levels) ∧
      Parallel lines (Node.Alike lines) (Grammar.operand levels) (Grammar.operand levels) := by
  induction levels with
  | zero => exact ⟨throw .overNested, throw .overNested⟩
  | succ levels inductionHypothesis =>
      rcases inductionHypothesis with ⟨expressions, operands⟩
      exact ⟨expressionOf operands expressions, operandOf operands expressions⟩

theorem expression (levels : Nat) :
    Parallel lines (Node.Alike lines) (expression levels) (expression levels) :=
  (expression_and_operand levels).1

end Expressions

/-! ## Statements -/

section Statements

variable {expr nested : Parser Node}

theorem sentence (sentence : Sentence) {node node' : Node} (nodes : node.Alike lines node') :
    Parallel lines (Node.Alike lines) (do sentenceEnd sentence; return node)
      (do sentenceEnd sentence; return node') :=
  ((expect _ _).bind fun _ _ _ => pure rfl).bind fun _ _ (_ : () = ()) => pure nodes

theorem condition (guarded : Guarded) (exprs : Parallel lines (Node.Alike lines) expr expr) :
    Parallel lines (Node.Alike lines) (condition guarded expr) (condition guarded expr) :=
  (expect _ _).bind fun _ _ _ => exprs.bind fun _ _ conditions =>
    (expect _ _).bind fun _ _ _ => pure conditions

theorem ifRest (exprs : Parallel lines (Node.Alike lines) expr expr)
    (inner : Parallel lines (Node.Alike lines) nested nested) :
    Parallel lines (Node.Alike lines) (ifRest expr nested) (ifRest expr nested) :=
  (condition .branch exprs).bind fun _ _ conditions => inner.bind fun _ _ thenBranches =>
    accept
      (fun _ _ _ => inner.bind fun _ _ elseBranches =>
        pure (.ifStmt conditions thenBranches elseBranches))
      (pure (.ifStmt conditions thenBranches .absent))

theorem whileRest (exprs : Parallel lines (Node.Alike lines) expr expr)
    (inner : Parallel lines (Node.Alike lines) nested nested) :
    Parallel lines (Node.Alike lines) (whileRest expr nested) (whileRest expr nested) :=
  (condition .loop exprs).bind fun _ _ conditions => inner.bind fun _ _ bodies =>
    pure (.whileStmt conditions bodies)

theorem varRest (exprs : Parallel lines (Node.Alike lines) expr expr) :
    Parallel lines (Node.Alike lines) (varRest expr) (varRest expr) :=
  (expect _ _).bind fun _ _ names =>
    accept
      (fun _ _ _ => exprs.bind fun _ _ initializers =>
        sentence .declaration (.varStmt names initializers))
      (sentence .declaration (.varStmt names .absent))

theorem declarationOf (exprs : Parallel lines (Node.Alike lines) expr expr)
    (inner : Parallel lines (Node.Alike lines) nested nested) :
    Parallel lines (Option.Rel (Node.Alike lines)) (declarationOf expr nested)
      (declarationOf expr nested) := by
  refine get.bind fun cursor cursor' cursors => ?_
  rw [cursors.position]
  exact recovering _ (accept (fun _ _ _ => varRest exprs) inner)

theorem blockRest {item : Parser (Option Node)}
    (items : Parallel lines (Option.Rel (Node.Alike lines)) item item) :
    Parallel lines (Node.Alike lines) (blockRest item) (blockRest item) :=
  (modifyOpenBlocks (· + 1)).bind fun _ _ _ => (many endsBlock items).bind fun _ _ bodies =>
    (modifyOpenBlocks (· - 1)).bind fun _ _ _ => (expect _ _).bind fun _ _ _ =>
      pure (.blockStmt bodies)

theorem statementOf (exprs : Parallel lines (Node.Alike lines) expr expr)
    (inner : Parallel lines (Node.Alike lines) nested nested) :
    Parallel lines (Node.Alike lines) (statementOf expr nested) (statementOf expr nested) := by
  refine accept (fun lead lead' leads => ?_) ?_
  · dsimp only
    rw [leads.kind]
    split
    · exact exprs.bind fun _ _ values => sentence .value (.printStmt values)
    · exact ifRest exprs inner
    · exact whileRest exprs inner
    · exact blockRest (declarationOf exprs inner)
  · exact exprs.bind fun _ _ values => sentence .expression (.exprStmt values)

end Statements

theorem statement (levels : Nat) :
    Parallel lines (Node.Alike lines) (statement levels) (statement levels) := by
  induction levels with
  | zero => exact throw .overNested
  | succ levels inductionHypothesis => exact statementOf (expression levels) inductionHypothesis

/-! ## Programs -/

theorem topDeclaration (levels : Nat) :
    Parallel lines (Option.Rel (Node.Alike lines)) (topDeclaration levels)
      (topDeclaration levels) := by
  refine get.bind fun cursor cursor' cursors => ?_
  dsimp only
  rw [cursors.position]
  exact abandoning _ (declarationOf (expression levels) (statement levels))

theorem program (levels : Nat) :
    Parallel lines (Node.AllAlike lines) (program levels) (program levels) :=
  many endsSource (topDeclaration levels)

end Parallel

/-! ## Outcomes -/

theorem SyntaxError.Alike.diagnostic {error error' : SyntaxError}
    (alike : error.Alike lines error') : error.diagnostic.Alike lines error'.diagnostic := by
  refine ⟨rfl, alike.token.line, ?_, congrArg Fault.message alike.fault⟩
  change SyntaxError.place error.token = SyntaxError.place error'.token
  rw [SyntaxError.place, SyntaxError.place, alike.token.kind, alike.token.lexeme]

/-- Token lists that are alike are parsed to statements and reports that are
alike. -/
theorem Parsed.ofProgram_alike (limit : Nat) {tokens tokens' : List Token}
    (alike : Token.AllAlike lines tokens tokens') :
    Node.AllAlike lines (Parsed.ofProgram limit tokens).result
        (Parsed.ofProgram limit tokens').result ∧
      List.Forall₂ (Diagnostic.Alike lines) (Parsed.ofProgram limit tokens).diagnostics
        (Parsed.ofProgram limit tokens').diagnostics := by
  have ends := Parallel.program limit _ _ (Cursor.Alike.atStart alike)
  unfold Parsed.ofProgram parseWith
  generalize program limit (Cursor.atStart tokens) = result,
    program limit (Cursor.atStart tokens') = result' at ends
  have reports {after after' : Cursor} (cursors : after.Alike lines after') :
      List.Forall₂ (Diagnostic.Alike lines) after.diagnostics after'.diagnostics := by
    rw [Cursor.diagnostics, Cursor.diagnostics, List.forall₂_map_left_iff,
      List.forall₂_map_right_iff]
    exact cursors.errors.imp fun _ _ => SyntaxError.Alike.diagnostic
  cases ends with
  | ok results cursors => exact ⟨results, reports cursors⟩
  | error cursors => exact ⟨.nil, reports cursors⟩

end Grammar

end TreeWalker
