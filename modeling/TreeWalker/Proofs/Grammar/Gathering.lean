import TreeWalker.Proofs.Grammar.Advance
import TreeWalker.Proofs.Grammar.Shape
import TreeWalker.Proofs.Tree.LeadingLine

/-!
# The tokens of what is parsed

A tree holds tokens that its parser has passed, each once and in the order in which
they were passed.  So do the trees of a list of items, whatever was dropped between
them: a parser only moves forward, also where it recovers.
-/

namespace TreeWalker.Grammar

variable {limit : Nat}

variable {α β : Type}

/-! ## What comes of recovery -/

section Recovery

variable {start : Nat} {found : Option α} {cursor after : Cursor}

/-- A parser with recovery comes to what it parsed, or to nothing. -/
theorem recovering_eq_ok {parser : Parser α}
    (run : recovering start parser cursor = .ok found after) :
    found = none ∨ ∃ a, found = some a ∧ parser cursor = .ok a after := by
  cases parsed : parser cursor with
  | ok a middle =>
      rw [recovering_apply_ok parsed] at run
      cases run
      exact Or.inr ⟨a, rfl, rfl⟩
  | error stop middle =>
      by_cases rejected : stop = .rejected
      · subst rejected
        rw [recovering_apply_rejected parsed] at run
        obtain ⟨_, _, _, nothing⟩ := bind_eq_ok_iff.mp run
        cases nothing
        exact Or.inl rfl
      · rw [recovering_apply_error parsed rejected] at run
        cases run

/-- A parser that may be given up comes to what it parsed, or to nothing. -/
theorem abandoning_eq_ok {parser : Parser (Option α)}
    (run : abandoning start parser cursor = .ok found after) :
    found = none ∨ parser cursor = .ok found after := by
  cases parsed : parser cursor with
  | ok other middle =>
      rw [abandoning_apply_ok parsed] at run
      exact Or.inr run
  | error stop middle =>
      by_cases overNested : stop = .overNested
      · subst overNested
        rw [abandoning_apply_overNested parsed] at run
        obtain ⟨_, _, _, nothing⟩ := bind_eq_ok_iff.mp run
        cases nothing
        exact Or.inl rfl
      · rw [abandoning_apply_error parsed overNested] at run
        cases run

end Recovery

/-! ## Gathering tokens -/

/-- With some tokens behind it, a parser comes to what holds tokens out of these and
out of those that it passes, in this order. -/
def Gathers (before : List Token) (held : α → List Token) (parser : Parser α) : Prop :=
  ∀ cursor a after, parser cursor = .ok a after →
    ∃ word, cursor.ahead = word ++ after.ahead ∧ (held a).Sublist (before ++ word)

/-- Tokens of a tree that may not be there. -/
def foundTokens (found : Option Node) : List Token :=
  Node.tokensOfAll found.toList

namespace Gathers

variable {before more : List Token} {held : α → List Token} {held' : β → List Token}
  {parser : Parser α}

theorem of_ne_ok (fails : ∀ cursor a after, parser cursor ≠ .ok a after) :
    Gathers before held parser :=
  fun cursor a after run => absurd run (fails cursor a after)

theorem pure {a : α} (holds : (held a).Sublist before) :
    Gathers before held (Pure.pure a) := by
  rintro cursor _ _ ⟨⟩
  exact ⟨[], rfl, by rwa [List.append_nil]⟩

theorem throw (stop : Stop) : Gathers before held (MonadExcept.throw stop) :=
  of_ne_ok fun _ _ _ => nofun

/-- More tokens may be behind a parser. -/
theorem mono (gathers : Gathers before held parser) (fewer : before.Sublist more) :
    Gathers more held parser := by
  intro cursor a after run
  obtain ⟨word, split, holds⟩ := gathers cursor a after run
  exact ⟨word, split, holds.trans (fewer.append_right word)⟩

/-- A parser that moves forward and comes to what holds nothing new. -/
theorem of_orderly (orderly : Orderly parser) (holds : ∀ a, (held a).Sublist before) :
    Gathers before held parser := by
  intro cursor a after run
  obtain ⟨word, split, _⟩ := (orderly.leads run).passes
  exact ⟨word, split, (holds a).trans (List.sublist_append_left _ _)⟩

/-- What comes first stands in front of what comes later. -/
theorem bind {next : α → Parser β} (first : Gathers [] held parser)
    (second : ∀ a, Gathers (before ++ held a) held' (next a)) :
    Gathers before held' (parser >>= next) := by
  intro cursor b after run
  obtain ⟨a, middle, firstRun, secondRun⟩ := bind_eq_ok_iff.mp run
  obtain ⟨word, split, holds⟩ := first cursor a middle firstRun
  obtain ⟨word', split', holds'⟩ := second a middle b after secondRun
  refine ⟨word ++ word', by rw [split, split', List.append_assoc], holds'.trans ?_⟩
  rw [← List.append_assoc]
  exact (holds.append_left before).append_right word'

/-- A step that comes to nothing that holds tokens. -/
theorem after {next : α → Parser β} (first : Orderly parser)
    (second : ∀ a, Gathers before held' (next a)) : Gathers before held' (parser >>= next) := by
  have nothing : Gathers [] (fun _ => []) parser := of_orderly first fun _ => List.Sublist.refl []
  exact nothing.bind fun a => by simpa using second a

/-- What comes of a token that may be there. -/
theorem accept {accepts : TokenKind → Bool} {next : Option Token → Parser β}
    (found : ∀ token, Gathers (before ++ [token]) held' (next (some token)))
    (missing : Gathers before held' (next none)) :
    Gathers before held' (accept? accepts >>= next) := by
  have token : Gathers [] Option.toList (accept? accepts) := by
    intro cursor token after run
    cases split : cursor.ahead with
    | nil =>
        rw [accept?_apply_nil split] at run
        cases run
    | cons next rest =>
        cases accepted : accepts next.kind with
        | true =>
            rw [accept?_apply_some split accepted] at run
            cases run
            exact ⟨[next], rfl, List.Sublist.refl _⟩
        | false =>
            rw [accept?_apply_none split accepted] at run
            cases run
            exact ⟨[], split.symm, List.Sublist.refl _⟩
  exact token.bind fun
    | none => by simpa using missing
    | some token => found token

/-- What comes of a token that must be there. -/
theorem expect {kind : TokenKind} {fault : Fault} {next : Token → Parser β}
    (found : ∀ token, Gathers (before ++ [token]) held' (next token)) :
    Gathers before held' (expect kind fault >>= next) := by
  have token : Gathers [] (fun token => [token]) (Grammar.expect kind fault) :=
    accept (fun token => pure (List.Sublist.refl _)) (of_ne_ok fun _ => reject_ne_ok fault)
  exact token.bind found

/-- A token that must be there, and that nothing holds. -/
theorem expectPure {kind : TokenKind} {fault : Fault} {b : β} (holds : (held' b).Sublist before) :
    Gathers before held' (Grammar.expect kind fault >>= fun _ => Pure.pure b) :=
  expect fun _ => pure (holds.trans (List.sublist_append_left _ _))

/-! ## Expressions -/

section Expressions

variable {operand nested : Parser Node}

theorem chain {level : Level} (member : level ∈ Level.all)
    (operands : Gathers [] Node.tokens operand) (fuel : Nat) (left : Node) (operator : Token) :
    Gathers (left.tokens ++ [operator]) Node.tokens (chain level operand fuel left operator) := by
  induction fuel generalizing left operator with
  | zero => exact throw .exhausted
  | succ fuel inductionHypothesis =>
      refine operands.bind fun right => ?_
      have tokens : (level.node left operator right).tokens =
          left.tokens ++ [operator] ++ right.tokens := by
        rcases Level.node_cases member with same | same <;> simp [same, Node.tokens]
      rw [← tokens]
      exact accept (inductionHypothesis _) (pure (List.Sublist.refl _))

theorem operations (operands : Gathers [] Node.tokens operand) {levels : List Level}
    (members : ∀ level ∈ levels, level ∈ Level.all) :
    Gathers [] Node.tokens (operations operand levels) := by
  induction levels with
  | nil => exact operands
  | cons level tighter inductionHypothesis =>
      have inner := inductionHypothesis fun other member => members other (by simp [member])
      have own := members level (by simp)
      exact inner.bind fun left => accept
        (fun operator => after Orderly.get fun _ => chain own inner _ left operator)
        (pure (List.Sublist.refl _))

theorem atom (inner : Gathers [] Node.tokens nested) : Gathers [] Node.tokens (atom nested) := by
  intro cursor node after run
  cases split : cursor.ahead with
  | nil =>
      rw [atom_apply_nil split] at run
      cases run
  | cons token rest =>
      rcases atomStart_cases token with ⟨value, constant⟩ | name | opening | other
      · rw [atom_apply_literal split constant] at run
        cases run
        exact ⟨[token], rfl, List.nil_sublist _⟩
      · rw [atom_apply_identifier split name] at run
        cases run
        exact ⟨[token], rfl, List.Sublist.refl _⟩
      · rw [atom_apply_group split opening] at run
        have group : Gathers [] Node.tokens (groupRest nested) :=
          inner.bind fun _ => expectPure (List.Sublist.refl _)
        obtain ⟨word, ahead, holds⟩ := group _ node after run
        exact ⟨token :: word, congrArg (token :: ·) ahead, holds.cons token⟩
      · rw [atom_apply_reject split other] at run
        exact absurd run (reject_ne_ok _ _ _)

/-- What is assigned to what is no variable is dropped with its tokens. -/
theorem assignTo (target : Node) (position : Nat) (equal : Token) (value : Node) :
    Gathers (target.tokens ++ [equal] ++ value.tokens) Node.tokens
      (assignTo target position equal value) := by
  cases target
  case reference name =>
    refine pure ?_
    simp [Node.tokens]
  all_goals
    refine after (Orderly.note position equal .assignmentTarget) fun _ => pure ?_
    rw [List.append_assoc]
    exact List.sublist_append_left _ _

theorem expressionOf (operands : Gathers [] Node.tokens operand)
    (inner : Gathers [] Node.tokens nested) :
    Gathers [] Node.tokens (expressionOf operand nested) :=
  (operations operands fun _ => id).bind fun target => after Orderly.get fun cursor =>
    accept (fun equal => inner.bind fun value => assignTo target cursor.position equal value)
      (pure (List.Sublist.refl _))

theorem operandOf (operands : Gathers [] Node.tokens operand)
    (inner : Gathers [] Node.tokens nested) : Gathers [] Node.tokens (operandOf operand nested) :=
  accept (fun _ => operands.bind fun _ => pure (List.Sublist.refl _)) (atom inner)

end Expressions

theorem expression_and_operand (levels : Nat) :
    Gathers [] Node.tokens (expression levels) ∧ Gathers [] Node.tokens (operand levels) := by
  induction levels with
  | zero => exact ⟨throw .overNested, throw .overNested⟩
  | succ levels inductionHypothesis =>
      rcases inductionHypothesis with ⟨expressions, operands⟩
      exact ⟨expressionOf operands expressions, operandOf operands expressions⟩

theorem expression (levels : Nat) : Gathers [] Node.tokens (expression levels) :=
  (expression_and_operand levels).1

/-! ## Recovery -/

/-- What is dropped holds nothing. -/
theorem recovering {parser : Parser Node} (orderly : Orderly parser)
    (gathers : Gathers [] Node.tokens parser) (start : Nat) :
    Gathers [] foundTokens (recovering start parser) := by
  intro cursor found after run
  rcases recovering_eq_ok run with rfl | ⟨node, rfl, parsed⟩
  · obtain ⟨word, split, _⟩ := ((Orderly.recovering orderly start).leads run).passes
    exact ⟨word, split, List.nil_sublist _⟩
  · obtain ⟨word, split, holds⟩ := gathers cursor node after parsed
    exact ⟨word, split, by simpa [foundTokens, Node.tokensOfAll] using holds⟩

/-! ## Statements -/

section Statements

variable {expr nested : Parser Node}

theorem sentence (sentence : Sentence) {node : Node} (holds : node.tokens.Sublist before) :
    Gathers before Node.tokens (do sentenceEnd sentence; return node) :=
  after (Orderly.sentenceEnd sentence) fun _ => pure holds

theorem condition (guarded : Guarded) (exprs : Gathers [] Node.tokens expr) :
    Gathers [] Node.tokens (condition guarded expr) :=
  after (Orderly.expect (by simp) _) fun _ => exprs.bind fun _ => expectPure (List.Sublist.refl _)

theorem ifRest (exprs : Gathers [] Node.tokens expr) (inner : Gathers [] Node.tokens nested) :
    Gathers [] Node.tokens (ifRest expr nested) := by
  refine (condition .branch exprs).bind fun condition => inner.bind fun thenBranch =>
    accept (fun _ => inner.bind fun elseBranch => pure ?_) (pure ?_)
  all_goals simp [Node.tokens]

theorem whileRest (exprs : Gathers [] Node.tokens expr) (inner : Gathers [] Node.tokens nested) :
    Gathers [] Node.tokens (whileRest expr nested) :=
  (condition .loop exprs).bind fun _ => inner.bind fun _ => pure (List.Sublist.refl _)

theorem varRest (exprs : Gathers [] Node.tokens expr) :
    Gathers [] Node.tokens (varRest expr) := by
  refine expect fun name => accept (fun _ => exprs.bind fun initializer => ?_) ?_
  all_goals exact sentence _ (by simp [Node.tokens])

theorem bareDeclaration (exprs : Gathers [] Node.tokens expr)
    (inner : Gathers [] Node.tokens nested) :
    Gathers [] Node.tokens (bareDeclaration expr nested) :=
  accept (fun _ => (varRest exprs).mono (List.nil_sublist _)) inner

theorem declarationOf (exprOrderly : Orderly expr) (exprs : Gathers [] Node.tokens expr)
    (nestedOrderly : Orderly nested) (inner : Gathers [] Node.tokens nested) :
    Gathers [] foundTokens (declarationOf expr nested) :=
  after Orderly.get fun _ => recovering (Orderly.bareDeclaration exprOrderly nestedOrderly)
    (bareDeclaration exprs inner) _

/-- Items in a row hold tokens in a row. -/
theorem collect {ends : TokenKind → Bool} {item : Parser (Option Node)}
    (items : Gathers [] foundTokens item) (fuel : Nat) (collected : List Node) :
    Gathers (Node.tokensOfAll collected.reverse) Node.tokensOfAll
      (collect ends item fuel collected) := by
  induction fuel generalizing collected with
  | zero =>
      refine after Orderly.nextToken fun token => ?_
      split
      · exact pure (List.Sublist.refl _)
      · exact throw .exhausted
  | succ fuel inductionHypothesis =>
      refine after Orderly.nextToken fun token => ?_
      split
      · exact pure (List.Sublist.refl _)
      · refine items.bind fun found => ?_
        rw [foundTokens, ← Node.tokensOfAll_append]
        cases found with
        | none => simpa using inductionHypothesis collected
        | some node => simpa using inductionHypothesis (node :: collected)

theorem many {ends : TokenKind → Bool} {item : Parser (Option Node)}
    (items : Gathers [] foundTokens item) : Gathers [] Node.tokensOfAll (many ends item) :=
  after Orderly.get fun _ => collect items _ []

theorem blockRest {item : Parser (Option Node)} (items : Gathers [] foundTokens item) :
    Gathers [] Node.tokens (blockRest item) :=
  after (Orderly.modifyOpenBlocks _) fun _ => (many items).bind fun _ =>
    after (Orderly.modifyOpenBlocks _) fun _ => expectPure (List.Sublist.refl _)

theorem statementOf (exprOrderly : Orderly expr) (exprs : Gathers [] Node.tokens expr)
    (nestedOrderly : Orderly nested) (inner : Gathers [] Node.tokens nested) :
    Gathers [] Node.tokens (statementOf expr nested) := by
  refine accept (fun lead => ?_) (exprs.bind fun _ => sentence _ (List.Sublist.refl _))
  refine Gathers.mono ?_ (List.nil_sublist _)
  dsimp only
  split
  · exact exprs.bind fun _ => sentence _ (List.Sublist.refl _)
  · exact ifRest exprs inner
  · exact whileRest exprs inner
  · exact blockRest (declarationOf exprOrderly exprs nestedOrderly inner)

end Statements

theorem statement (levels : Nat) : Gathers [] Node.tokens (statement levels) := by
  induction levels with
  | zero => exact throw .overNested
  | succ levels inductionHypothesis =>
      exact statementOf (Orderly.expression levels) (expression levels) (Orderly.statement levels)
        inductionHypothesis

theorem declaration (levels : Nat) : Gathers [] foundTokens (declaration levels) :=
  declarationOf (Orderly.expression levels) (expression levels) (Orderly.statement levels)
    (statement levels)

/-! ## Programs -/

/-- What is given up holds nothing. -/
theorem abandoning {parser : Parser (Option Node)} (orderly : Orderly parser)
    (gathers : Gathers [] foundTokens parser) (start : Nat) :
    Gathers [] foundTokens (abandoning start parser) := by
  intro cursor found after run
  rcases abandoning_eq_ok run with rfl | parsed
  · obtain ⟨word, split, _⟩ := ((Orderly.abandoning orderly start).leads run).passes
    exact ⟨word, split, List.nil_sublist _⟩
  · exact gathers cursor found after parsed

theorem program (levels : Nat) : Gathers [] Node.tokensOfAll (program levels) :=
  many <| after Orderly.get fun _ => abandoning (Orderly.declaration levels) (declaration levels) _

end Gathers

/-- The statements of a program hold tokens of its source, each of them once and in
their order. -/
theorem tokensOfAll_sublist (tokens : List Token) :
    (Node.tokensOfAll (Parsed.ofProgram limit tokens).result).Sublist tokens := by
  unfold Parsed.ofProgram parseWith
  cases run : program limit (Cursor.atStart tokens) with
  | error stop after => exact List.nil_sublist _
  | ok statements after =>
      obtain ⟨word, split, holds⟩ := Gathers.program limit _ _ _ run
      have whole : tokens = word ++ after.ahead := split
      rw [whole]
      exact holds.trans (List.sublist_append_left _ _)

end TreeWalker.Grammar
