import TreeWalker.Proofs.Grammar.Soundness.Statement
import TreeWalker.Proofs.Grammar.Spelling

/-!
# Derivations and canonical trees

A derivation without stray tokens has a canonical tree, and its word fits the
spelling of the tree.  Conversely a word that fits the spelling of a canonical
tree has a derivation with this tree.  The levels of the parser and the numbers
that say how tightly an operator binds are brought together by the number of
levels that are left.
-/

namespace TreeWalker.Grammar

/-! ## Levels and strengths -/

/-- A level is tighter than another one by the number of levels between them. -/
theorem strength_of_accepts {level : Level} {tiers : List Level}
    (suffix : level :: tiers <:+ Level.all) {kind : TokenKind}
    (accepts : level.accepts kind = true) :
    (level.node = .logical ∧ Node.logicalStrength? kind = some (6 - tiers.length)) ∨
      (level.node = .binary ∧ Node.binaryStrength? kind = some (6 - tiers.length)) := by
  simp only [Level.all, List.suffix_cons_iff, List.cons.injEq, List.suffix_nil, reduceCtorEq,
    or_false] at suffix
  rcases suffix with ⟨rfl, rfl⟩ | ⟨rfl, rfl⟩ | ⟨rfl, rfl⟩ | ⟨rfl, rfl⟩ | ⟨rfl, rfl⟩ | ⟨rfl, rfl⟩
  all_goals simp [Level.accepts] at accepts
  · simp [accepts, Node.logicalStrength?]
  · simp [accepts, Node.logicalStrength?]
  · rcases accepts with rfl | rfl <;> simp [Node.binaryStrength?]
  · rcases accepts with rfl | rfl | rfl | rfl <;> simp [Node.binaryStrength?]
  · rcases accepts with rfl | rfl <;> simp [Node.binaryStrength?]
  · rcases accepts with rfl | rfl <;> simp [Node.binaryStrength?]

/-- Every logical operator has its level. -/
theorem exists_level_of_logical {kind : TokenKind} {s : Nat}
    (strength : Node.logicalStrength? kind = some s) :
    ∃ level tiers, level :: tiers <:+ Level.all ∧ s = 6 - tiers.length ∧
      level.accepts kind = true ∧ level.node = .logical := by
  unfold Node.logicalStrength? at strength
  split at strength
  · cases strength
    exact ⟨_, _, List.drop_suffix 0 Level.all, rfl, rfl, rfl⟩
  · cases strength
    exact ⟨_, _, List.drop_suffix 1 Level.all, rfl, rfl, rfl⟩
  · cases strength

/-- Every other binary operator has its level. -/
theorem exists_level_of_binary {kind : TokenKind} {s : Nat}
    (strength : Node.binaryStrength? kind = some s) :
    ∃ level tiers, level :: tiers <:+ Level.all ∧ s = 6 - tiers.length ∧
      level.accepts kind = true ∧ level.node = .binary := by
  unfold Node.binaryStrength? at strength
  split at strength
  · cases strength
    exact ⟨_, _, List.drop_suffix 2 Level.all, rfl, rfl, rfl⟩
  · cases strength
    exact ⟨_, _, List.drop_suffix 2 Level.all, rfl, rfl, rfl⟩
  · cases strength
    exact ⟨_, _, List.drop_suffix 3 Level.all, rfl, rfl, rfl⟩
  · cases strength
    exact ⟨_, _, List.drop_suffix 3 Level.all, rfl, rfl, rfl⟩
  · cases strength
    exact ⟨_, _, List.drop_suffix 3 Level.all, rfl, rfl, rfl⟩
  · cases strength
    exact ⟨_, _, List.drop_suffix 3 Level.all, rfl, rfl, rfl⟩
  · cases strength
    exact ⟨_, _, List.drop_suffix 4 Level.all, rfl, rfl, rfl⟩
  · cases strength
    exact ⟨_, _, List.drop_suffix 4 Level.all, rfl, rfl, rfl⟩
  · cases strength
    exact ⟨_, _, List.drop_suffix 5 Level.all, rfl, rfl, rfl⟩
  · cases strength
    exact ⟨_, _, List.drop_suffix 5 Level.all, rfl, rfl, rfl⟩
  · cases strength

/-- There are six levels. -/
theorem length_le_of_suffix {tiers : List Level} (suffix : tiers <:+ Level.all) :
    tiers.length ≤ 6 :=
  suffix.length_le

theorem isUnaryOperator_iff {kind : TokenKind} :
    isUnaryOperator kind = true ↔ kind = .symbol .bang ∨ kind = .symbol .minus := by
  unfold isUnaryOperator
  split <;> simp_all

/-! ## From derivations to trees -/

/-- A list of marks fits a word if the numbers and strings of the word carry their
values. -/
def Spelt (marks : List Mark) (word : List Token) : Prop :=
  (∀ token ∈ word, token.Carries) → Fit marks word

theorem Spelt.nil : Spelt [] [] :=
  fun _ => .nil

theorem Spelt.cons {mark : Mark} {marks : List Mark} {token : Token} {word : List Token}
    (fits : mark.Fits token) (spelt : Spelt marks word) : Spelt (mark :: marks) (token :: word) :=
  fun carries =>
    .cons fits (spelt fun other member => carries other (List.mem_cons_of_mem _ member))

theorem Spelt.append {marks marks' : List Mark} {word word' : List Token}
    (first : Spelt marks word) (second : Spelt marks' word') :
    Spelt (marks ++ marks') (word ++ word') :=
  fun carries => (first fun token member => carries token (List.mem_append_left _ member)).append
    (second fun token member => carries token (List.mem_append_right _ member))

/-- A canonical expression that the word spells. -/
structure Written (node : Node) (word : List Token) : Prop where
  canonical : node.IsExpression
  fits : Spelt node.spelling word

/-- What a phrase without stray tokens is in terms of its tree. -/
def Reads : Category → Node → List Token → Prop
  | .operand, node, word => Written node word ∧ 7 ≤ node.strength
  | .operation tiers, node, word =>
    tiers <:+ Level.all → Written node word ∧ 7 - tiers.length ≤ node.strength
  | .expression, node, word => Written node word
  | .parenthesized, node, word => node.IsExpression ∧
    Spelt (.fixed (.symbol .leftParen) :: (node.spelling ++ [.fixed (.symbol .rightParen)])) word

theorem Written.apply {level : Level} {tiers : List Level} {left right : Node} {operator : Token}
    {leftWord rightWord : List Token} (suffix : level :: tiers <:+ Level.all)
    (leftWritten : Written left leftWord) (leftStrength : 6 - tiers.length ≤ left.strength)
    (isOperator : level.accepts operator.kind = true)
    (rightWritten : Written right rightWord) (rightStrength : 7 - tiers.length ≤ right.strength) :
    Written (level.node left operator right) (leftWord ++ operator :: rightWord) ∧
      (level.node left operator right).strength = 6 - tiers.length := by
  have few := length_le_of_suffix suffix
  have fits : Spelt (left.spelling ++ .held operator :: right.spelling)
      (leftWord ++ operator :: rightWord) :=
    leftWritten.fits.append (.cons rfl rightWritten.fits)
  have tighter : 6 - tiers.length < right.strength := by
    rw [List.length_cons] at few
    omega
  rcases strength_of_accepts suffix isOperator with ⟨same, strength⟩ | ⟨same, strength⟩
  · rw [same]
    refine ⟨⟨?_, by simpa [Node.spelling] using fits⟩, by simp [Node.strength, strength]⟩
    exact ⟨⟨_, strength, leftStrength, tighter⟩, leftWritten.canonical, rightWritten.canonical⟩
  · rw [same]
    refine ⟨⟨?_, by simpa [Node.spelling] using fits⟩, by simp [Node.strength, strength]⟩
    exact ⟨⟨_, strength, leftStrength, tighter⟩, leftWritten.canonical, rightWritten.canonical⟩

theorem Phrase.reads {category : Category} {node : Node} {word strays : List Token}
    (phrase : Phrase category node word strays) (clean : strays = []) :
    Reads category node word := by
  induction phrase with
  | @literal token value constant =>
      refine ⟨⟨trivial, ?_⟩, by simp [Node.strength]⟩
      rw [Node.spelling]
      exact fun carries => .cons (fits_of_literalValue? (carries token (by simp)) constant) .nil
  | reference isName =>
      exact ⟨⟨isName, .cons rfl .nil⟩, by simp [Node.strength]⟩
  | grouping _ inductionHypothesis =>
      rcases inductionHypothesis clean with ⟨canonical, fits⟩
      exact ⟨⟨canonical, by simpa only [Node.spelling] using fits⟩, by simp [Node.strength]⟩
  | unary isOperator _ inductionHypothesis =>
      rcases inductionHypothesis clean with ⟨written, strength⟩
      refine ⟨⟨⟨isUnaryOperator_iff.mp isOperator, strength, written.canonical⟩, ?_⟩,
        by simp [Node.strength]⟩
      exact .cons rfl written.fits
  | tightest _ inductionHypothesis =>
      intro _
      exact inductionHypothesis clean
  | tighter _ inductionHypothesis =>
      intro suffix
      obtain ⟨written, strength⟩ := inductionHypothesis clean
        ((List.suffix_cons _ _).trans suffix)
      refine ⟨written, ?_⟩
      rw [List.length_cons]
      omega
  | apply _ isOperator _ leftHypothesis rightHypothesis =>
      intro suffix
      obtain ⟨leftClean, rightClean⟩ := List.append_eq_nil_iff.mp clean
      rcases leftHypothesis leftClean suffix with ⟨leftWritten, leftStrength⟩
      obtain ⟨rightWritten, rightStrength⟩ :=
        rightHypothesis rightClean ((List.suffix_cons _ _).trans suffix)
      rw [List.length_cons] at leftStrength
      obtain ⟨written, strength⟩ := Written.apply suffix leftWritten (by omega) isOperator
        rightWritten rightStrength
      refine ⟨written, ?_⟩
      rw [strength, List.length_cons]
      omega
  | plain _ inductionHypothesis =>
      exact (inductionHypothesis clean (List.suffix_refl _)).1
  | @assign target value equal _ valueWord _ _ _ isEqual _ targetHypothesis valueHypothesis =>
      rcases List.append_eq_nil_iff.mp clean with ⟨targetClean, others⟩
      obtain ⟨valueClean, noStray⟩ := List.append_eq_nil_iff.mp others
      rcases targetHypothesis targetClean (List.suffix_refl _) with ⟨targetWritten, _⟩
      have valueWritten := valueHypothesis valueClean
      cases target
      case reference name =>
        have rest : Spelt (.fixed (.symbol .equal) :: value.spelling) (equal :: valueWord) :=
          .cons isEqual valueWritten.fits
        exact ⟨⟨targetWritten.canonical, valueWritten.canonical⟩, targetWritten.fits.append rest⟩
      all_goals cases noStray
  | parenthesized isOpening _ isClosing inductionHypothesis =>
      have written := inductionHypothesis clean
      exact ⟨written.canonical, .cons isOpening (written.fits.append (.cons isClosing .nil))⟩

/-- What a clause without stray tokens is in terms of its tree. -/
def ClauseReads : Part → Node → List Token → Prop
  | .statement, node, word => node.IsStatement ∧ Spelt node.spelling word
  | .declaration, node, word => (node.IsVariable ∨ node.IsStatement) ∧ Spelt node.spelling word
  | .body, node, word => ∀ nodes, node = .blockStmt nodes →
    Node.AreCanonical nodes ∧ Spelt (Node.spellingOfAll nodes) word

theorem spelling_ifElse {condition thenBranch elseBranch : Node}
    (present : elseBranch ≠ .absent) :
    (Node.ifStmt condition thenBranch elseBranch).spelling =
      .fixed (.keyword .kwIf) :: .fixed (.symbol .leftParen) ::
        (condition.spelling ++ .fixed (.symbol .rightParen) ::
          (thenBranch.spelling ++ .fixed (.keyword .kwElse) :: elseBranch.spelling)) := by
  cases elseBranch with
  | absent => contradiction
  | _ => simp [Node.spelling]

theorem isStatement_ifElse {condition thenBranch elseBranch : Node}
    (present : elseBranch ≠ .absent) :
    (Node.ifStmt condition thenBranch elseBranch).IsStatement ↔
      condition.IsExpression ∧ thenBranch.IsStatement ∧ thenBranch.endsOpen = false ∧
        elseBranch.IsStatement := by
  cases elseBranch with
  | absent => contradiction
  | _ => simp [Node.IsStatement]

theorem spelling_varInit {name : Token} {initializer : Node} (present : initializer ≠ .absent) :
    (Node.varStmt name initializer).spelling =
      .fixed (.keyword .kwVar) :: .held name :: .fixed (.symbol .equal) ::
        (initializer.spelling ++ [.fixed (.symbol .semicolon)]) := by
  cases initializer with
  | absent => contradiction
  | _ => simp [Node.spelling]

theorem nesting_varInit {name : Token} {initializer : Node} (present : initializer ≠ .absent) :
    (Node.varStmt name initializer).nesting = initializer.nesting + 1 := by
  cases initializer with
  | absent => contradiction
  | _ => simp [Node.nesting]

theorem ne_absent_of_isExpression {node : Node} (canonical : node.IsExpression) :
    node ≠ .absent := by
  rintro rfl
  exact canonical

theorem Clause.reads {part : Part} {node : Node} {word strays : List Token}
    (clause : Clause part node word strays) (clean : strays = []) :
    ClauseReads part node word := by
  induction clause with
  | expression phrase isSemicolon =>
      obtain ⟨canonical, fits⟩ : Written _ _ := phrase.reads clean
      exact ⟨canonical, fits.append (.cons isSemicolon .nil)⟩
  | print isLead phrase isSemicolon =>
      obtain ⟨canonical, fits⟩ : Written _ _ := phrase.reads clean
      exact ⟨canonical, .cons isLead (fits.append (.cons isSemicolon .nil))⟩
  | ifThen isLead phrase _ thenHypothesis =>
      rcases List.append_eq_nil_iff.mp clean with ⟨conditionClean, thenClean⟩
      rcases phrase.reads conditionClean with ⟨canonical, fits⟩
      obtain ⟨thenCanonical, thenFits⟩ := thenHypothesis thenClean
      refine ⟨⟨canonical, thenCanonical⟩, .cons isLead ?_⟩
      simpa using fits.append thenFits
  | ifElse isLead phrase _ closed isElse elseClause thenHypothesis elseHypothesis =>
      rcases List.append_eq_nil_iff.mp clean with ⟨conditionClean, others⟩
      rcases List.append_eq_nil_iff.mp others with ⟨thenClean, elseClean⟩
      rcases phrase.reads conditionClean with ⟨canonical, fits⟩
      obtain ⟨thenCanonical, thenFits⟩ := thenHypothesis thenClean
      rcases elseHypothesis elseClean with ⟨elseCanonical, elseFits⟩
      have elseTail : Spelt (.fixed (.keyword .kwElse) :: _) _ := .cons isElse elseFits
      refine ⟨(isStatement_ifElse elseClause.ne_absent).mpr
        ⟨canonical, thenCanonical, closed, elseCanonical⟩, ?_⟩
      rw [spelling_ifElse elseClause.ne_absent]
      refine .cons isLead ?_
      simpa using fits.append (thenFits.append elseTail)
  | whileDo isLead phrase _ bodyHypothesis =>
      rcases List.append_eq_nil_iff.mp clean with ⟨conditionClean, bodyClean⟩
      rcases phrase.reads conditionClean with ⟨canonical, fits⟩
      obtain ⟨bodyCanonical, bodyFits⟩ := bodyHypothesis bodyClean
      refine ⟨⟨canonical, bodyCanonical⟩, .cons isLead ?_⟩
      simpa using fits.append bodyFits
  | block isOpening _ isClosing bodyHypothesis =>
      rcases bodyHypothesis clean _ rfl with ⟨canonical, fits⟩
      exact ⟨canonical, .cons isOpening (fits.append (.cons isClosing .nil))⟩
  | statement _ inductionHypothesis =>
      rcases inductionHypothesis clean with ⟨canonical, fits⟩
      exact ⟨Or.inr canonical, fits⟩
  | var isLead isName isSemicolon =>
      exact ⟨Or.inl ⟨isName, Or.inl rfl⟩, .cons isLead (.cons rfl (.cons isSemicolon .nil))⟩
  | varInit isLead isName isEqual phrase isSemicolon =>
      obtain ⟨canonical, fits⟩ : Written _ _ := phrase.reads clean
      refine ⟨Or.inl ⟨isName, Or.inr canonical⟩, ?_⟩
      rw [spelling_varInit (ne_absent_of_isExpression canonical)]
      exact .cons isLead (.cons rfl (.cons isEqual (fits.append (.cons isSemicolon .nil))))
  | empty =>
      rintro nodes ⟨⟩
      exact ⟨trivial, .nil⟩
  | item _ _ itemHypothesis restHypothesis =>
      rcases List.append_eq_nil_iff.mp clean with ⟨itemClean, restClean⟩
      obtain ⟨canonical, fits⟩ := itemHypothesis itemClean
      rcases restHypothesis restClean _ rfl with ⟨restCanonical, restFits⟩
      rintro nodes ⟨⟩
      exact ⟨⟨canonical, restCanonical⟩, fits.append restFits⟩

/-! ## From trees to derivations -/

/-- The places where a tree that a word spells may stand. -/
structure Placed (node : Node) (word : List Token) : Prop where
  operand : 7 ≤ node.strength → Phrase .operand node word []
  operation : ∀ tiers, tiers <:+ Level.all → 7 - tiers.length ≤ node.strength →
    Phrase (.operation tiers) node word []
  expression : Phrase .expression node word []

/-- An operation is one of looser operators as well. -/
theorem Phrase.loosen {tiers tiers' : List Level} {node : Node} {word strays : List Token}
    (phrase : Phrase (.operation tiers) node word strays) (suffix : tiers <:+ tiers') :
    Phrase (.operation tiers') node word strays := by
  rcases suffix with ⟨looser, rfl⟩
  induction looser with
  | nil => exact phrase
  | cons level looser inductionHypothesis => exact .tighter inductionHypothesis

theorem Placed.of_operand {node : Node} {word : List Token}
    (phrase : Phrase .operand node word []) : Placed node word where
  operand _ := phrase
  operation tiers _ _ := phrase.of_operand tiers
  expression := .plain (phrase.of_operand Level.all)

theorem Placed.of_operation {tiers : List Level} {node : Node} {word : List Token}
    (phrase : Phrase (.operation tiers) node word []) (suffix : tiers <:+ Level.all)
    (strength : node.strength = 7 - tiers.length) (loose : node.strength < 7) :
    Placed node word where
  operand tight := absurd loose (Nat.not_lt.mpr tight)
  operation tiers' suffix' strength' := by
    have few := length_le_of_suffix suffix
    have few' := length_le_of_suffix suffix'
    have shorter : tiers.length ≤ tiers'.length := by omega
    exact phrase.loosen (List.suffix_of_suffix_length_le suffix suffix' shorter)
  expression := .plain (phrase.loosen suffix)

theorem Placed.apply {level : Level} {tiers : List Level} {left right : Node} {operator : Token}
    {leftWord rightWord : List Token} (suffix : level :: tiers <:+ Level.all)
    (leftPlaced : Placed left leftWord) (leftStrength : 6 - tiers.length ≤ left.strength)
    (isOperator : level.accepts operator.kind = true)
    (rightPlaced : Placed right rightWord) (rightStrength : 6 - tiers.length < right.strength)
    (strength : (level.node left operator right).strength = 6 - tiers.length) :
    Placed (level.node left operator right) (leftWord ++ operator :: rightWord) := by
  have few := length_le_of_suffix suffix
  rw [List.length_cons] at few
  have leftPhrase := leftPlaced.operation (level :: tiers) suffix (by
    rw [List.length_cons]
    omega)
  have rightPhrase := rightPlaced.operation tiers ((List.suffix_cons _ _).trans suffix) (by omega)
  refine Placed.of_operation (leftPhrase.apply isOperator rightPhrase) suffix ?_ (by omega)
  rw [strength, List.length_cons]
  omega

/-- Two operands with an operator of one sort between them, binary or logical. -/
theorem Placed.of_binds {sort : Node → Token → Node → Node} {strengthOf : TokenKind → Option Nat}
    {left right : Node} {operator : Token} {word : List Token}
    (levels : ∀ {kind s}, strengthOf kind = some s →
      ∃ level tiers, level :: tiers <:+ Level.all ∧ s = 6 - tiers.length ∧
        level.accepts kind = true ∧ level.node = sort)
    (same : ∀ {s}, strengthOf operator.kind = some s → (sort left operator right).strength = s)
    (binds : Node.Binds (strengthOf operator.kind) left right)
    (fits : Fit (left.spelling ++ .held operator :: right.spelling) word)
    (leftPlaced : ∀ {word}, Fit left.spelling word → Placed left word)
    (rightPlaced : ∀ {word}, Fit right.spelling word → Placed right word) :
    Placed (sort left operator right) word := by
  rcases binds with ⟨s, strength, leftStrength, rightStrength⟩
  obtain ⟨level, tiers, suffix, rfl, isOperator, rfl⟩ := levels strength
  rcases fit_append_iff.mp fits with ⟨front, back, rfl, leftFits, backFits⟩
  rcases fit_cons_iff.mp backFits with ⟨_, rest, rfl, rightFits, rfl⟩
  exact Placed.apply suffix (leftPlaced leftFits) leftStrength isOperator (rightPlaced rightFits)
    rightStrength (same strength)

theorem parenthesized_of_fit {node : Node} {word : List Token}
    (fits : Fit (.fixed (.symbol .leftParen) ::
      (node.spelling ++ [.fixed (.symbol .rightParen)])) word)
    (phrase : ∀ word, Fit node.spelling word → Phrase .expression node word []) :
    Phrase .parenthesized node word [] := by
  rcases fit_cons_iff.mp fits with ⟨opening, rest, isOpening, restFits, rfl⟩
  obtain ⟨inner, back, rfl, innerFits, backFits⟩ := fit_append_iff.mp restFits
  rcases fit_cons_iff.mp backFits with ⟨closing, _, isClosing, ends, rfl⟩
  cases ends
  exact .parenthesized isOpening (phrase inner innerFits) isClosing

/-- A canonical expression may stand wherever it binds tightly enough. -/
theorem Placed.of_fit {node : Node} {word : List Token} (canonical : node.IsExpression)
    (fits : Fit node.spelling word) : Placed node word := by
  induction node using Node.inductionOn generalizing word with
  | literal value =>
      rw [Node.spelling] at fits
      rcases fit_cons_iff.mp fits with ⟨token, _, constant, ends, rfl⟩
      cases ends
      exact Placed.of_operand (.literal (literalValue?_of_fits constant))
  | reference name =>
      rw [Node.spelling] at fits
      rcases fit_cons_iff.mp fits with ⟨_, _, rfl, ends, rfl⟩
      cases ends
      exact Placed.of_operand (.reference canonical)
  | grouping inner inductionHypothesis =>
      rw [Node.spelling] at fits
      exact Placed.of_operand (.grouping (parenthesized_of_fit fits fun word fits =>
        (inductionHypothesis canonical fits).expression))
  | unary operator operand inductionHypothesis =>
      obtain ⟨isOperator, strength, operandCanonical⟩ := canonical
      rw [Node.spelling] at fits
      rcases fit_cons_iff.mp fits with ⟨_, rest, rfl, restFits, rfl⟩
      have phrase := (inductionHypothesis operandCanonical restFits).operand strength
      exact Placed.of_operand (.unary (isUnaryOperator_iff.mpr isOperator) phrase)
  | binary left operator right leftHypothesis rightHypothesis =>
      rcases canonical with ⟨binds, leftCanonical, rightCanonical⟩
      rw [Node.spelling] at fits
      exact Placed.of_binds exists_level_of_binary (fun strength => by
        simp [Node.strength, strength]) binds fits (leftHypothesis leftCanonical)
        (rightHypothesis rightCanonical)
  | logical left operator right leftHypothesis rightHypothesis =>
      rcases canonical with ⟨binds, leftCanonical, rightCanonical⟩
      rw [Node.spelling] at fits
      exact Placed.of_binds exists_level_of_logical (fun strength => by
        simp [Node.strength, strength]) binds fits (leftHypothesis leftCanonical)
        (rightHypothesis rightCanonical)
  | assign name value inductionHypothesis =>
      obtain ⟨isName, valueCanonical⟩ := canonical
      rw [Node.spelling] at fits
      rcases fit_cons_iff.mp fits with ⟨_, _, rfl, tailFits, rfl⟩
      rcases fit_cons_iff.mp tailFits with ⟨equal, rest, isEqual, restFits, rfl⟩
      have target := (Phrase.reference isName).of_operand Level.all
      have phrase := (inductionHypothesis valueCanonical restFits).expression
      refine ⟨fun tight => absurd tight (by simp [Node.strength]), fun tiers suffix tight => ?_,
        .assign target isEqual phrase⟩
      have few := length_le_of_suffix suffix
      simp only [Node.strength] at tight
      omega
  | _ => exact canonical.elim

theorem clause_sentence {node : Node} {word : List Token} (canonical : node.IsExpression)
    (fits : Fit (node.spelling ++ [.fixed (.symbol .semicolon)]) word) :
    ∃ front semicolon, word = front ++ [semicolon] ∧ semicolon.kind = .symbol .semicolon ∧
      Phrase .expression node front [] := by
  rcases fit_append_iff.mp fits with ⟨front, back, rfl, nodeFits, backFits⟩
  obtain ⟨semicolon, _, isSemicolon, ends, rfl⟩ := fit_cons_iff.mp backFits
  cases ends
  exact ⟨front, semicolon, rfl, isSemicolon, (Placed.of_fit canonical nodeFits).expression⟩

/-- A condition in front of the statement it guards. -/
theorem phrase_condition {condition : Node} {marks : List Mark} {word : List Token}
    (canonical : condition.IsExpression)
    (fits : Fit (.fixed (.symbol .leftParen) ::
      (condition.spelling ++ .fixed (.symbol .rightParen) :: marks)) word) :
    ∃ front back, word = front ++ back ∧ Phrase .parenthesized condition front [] ∧
      Fit marks back := by
  have whole : Fit ((.fixed (.symbol .leftParen) ::
      (condition.spelling ++ [.fixed (.symbol .rightParen)])) ++ marks) word := by
    simpa using fits
  rcases fit_append_iff.mp whole with ⟨front, back, rfl, frontFits, backFits⟩
  exact ⟨front, back, rfl, parenthesized_of_fit frontFits fun _ fits =>
    (Placed.of_fit canonical fits).expression, backFits⟩

theorem clause_variable {node : Node} {word : List Token} (canonical : node.IsVariable)
    (fits : Fit node.spelling word) : Clause .declaration node word [] := by
  cases node with
  | varStmt name initializer =>
      rcases canonical with ⟨isName, rfl | initCanonical⟩
      · rw [Node.spelling] at fits
        rcases fit_cons_iff.mp fits with ⟨lead, rest, isLead, restFits, rfl⟩
        obtain ⟨_, tail, rfl, tailFits, rfl⟩ := fit_cons_iff.mp restFits
        rcases fit_cons_iff.mp tailFits with ⟨semicolon, _, isSemicolon, ends, rfl⟩
        cases ends
        exact .var isLead isName isSemicolon
      · rw [spelling_varInit (ne_absent_of_isExpression initCanonical)] at fits
        rcases fit_cons_iff.mp fits with ⟨lead, rest, isLead, restFits, rfl⟩
        rcases fit_cons_iff.mp restFits with ⟨_, tail, rfl, tailFits, rfl⟩
        obtain ⟨equal, _, isEqual, valueFits, rfl⟩ := fit_cons_iff.mp tailFits
        obtain ⟨front, semicolon, rfl, isSemicolon, phrase⟩ :=
          clause_sentence initCanonical valueFits
        exact .varInit isLead isName isEqual phrase isSemicolon
  | _ => exact canonical.elim

/-- The statements of a body have a derivation if each of them has one. -/
theorem clause_body {nodes : List Node} {word : List Token} (canonical : Node.AreCanonical nodes)
    (clauses : ∀ node ∈ nodes, ∀ {word}, node.IsStatement → Fit node.spelling word →
      Clause .statement node word [])
    (fits : Fit (Node.spellingOfAll nodes) word) : Clause .body (.blockStmt nodes) word [] := by
  induction nodes generalizing word with
  | nil =>
      cases fits
      exact .empty
  | cons node nodes inductionHypothesis =>
      rcases canonical with ⟨first, others⟩
      rw [Node.spellingOfAll] at fits
      rcases fit_append_iff.mp fits with ⟨front, back, rfl, nodeFits, backFits⟩
      have rest := inductionHypothesis others
        (fun other member => clauses other (List.mem_cons_of_mem _ member)) backFits
      rcases first with isVariable | isStatement
      · exact .item (clause_variable isVariable nodeFits) rest
      · exact .item (.statement (clauses node List.mem_cons_self isStatement nodeFits)) rest

/-- A canonical statement has a derivation. -/
theorem clause_of_fit {node : Node} {word : List Token} (canonical : node.IsStatement)
    (fits : Fit node.spelling word) : Clause .statement node word [] := by
  induction node using Node.inductionOn generalizing word with
  | exprStmt expr =>
      rw [Node.spelling] at fits
      rcases clause_sentence canonical fits with ⟨front, semicolon, rfl, isSemicolon, phrase⟩
      exact .expression phrase isSemicolon
  | printStmt expr =>
      rw [Node.spelling] at fits
      obtain ⟨lead, rest, isLead, restFits, rfl⟩ := fit_cons_iff.mp fits
      rcases clause_sentence canonical restFits with ⟨front, semicolon, rfl, isSemicolon, phrase⟩
      exact .print isLead phrase isSemicolon
  | blockStmt body inductionHypothesis =>
      rw [Node.spelling] at fits
      rcases fit_cons_iff.mp fits with ⟨opening, rest, isOpening, restFits, rfl⟩
      rcases fit_append_iff.mp restFits with ⟨front, back, rfl, bodyFits, backFits⟩
      obtain ⟨closing, _, isClosing, ends, rfl⟩ := fit_cons_iff.mp backFits
      cases ends
      exact .block isOpening (clause_body canonical inductionHypothesis bodyFits) isClosing
  | ifStmt condition thenBranch elseBranch _ thenHypothesis elseHypothesis =>
      by_cases missing : elseBranch = .absent
      · subst missing
        rcases canonical with ⟨conditionCanonical, thenCanonical⟩
        rw [Node.spelling] at fits
        rcases fit_cons_iff.mp fits with ⟨lead, rest, isLead, restFits, rfl⟩
        obtain ⟨front, back, rfl, phrase, thenFits⟩ := phrase_condition conditionCanonical restFits
        exact .ifThen isLead phrase (thenHypothesis thenCanonical thenFits)
      · rw [isStatement_ifElse missing] at canonical
        rw [spelling_ifElse missing] at fits
        rcases canonical with ⟨conditionCanonical, thenCanonical, closed, elseCanonical⟩
        obtain ⟨lead, rest, isLead, restFits, rfl⟩ := fit_cons_iff.mp fits
        obtain ⟨front, back, rfl, phrase, branchFits⟩ :=
          phrase_condition conditionCanonical restFits
        rcases fit_append_iff.mp branchFits with ⟨thenWord, tail, rfl, thenFits, tailFits⟩
        rcases fit_cons_iff.mp tailFits with ⟨middle, elseWord, isElse, elseFits, rfl⟩
        exact .ifElse isLead phrase (thenHypothesis thenCanonical thenFits) closed isElse
          (elseHypothesis elseCanonical elseFits)
  | whileStmt condition body _ bodyHypothesis =>
      rcases canonical with ⟨conditionCanonical, bodyCanonical⟩
      rw [Node.spelling] at fits
      obtain ⟨lead, rest, isLead, restFits, rfl⟩ := fit_cons_iff.mp fits
      rcases phrase_condition conditionCanonical restFits with ⟨front, back, rfl, phrase, bodyFits⟩
      exact .whileDo isLead phrase (bodyHypothesis bodyCanonical bodyFits)
  | _ => exact canonical.elim

/-- Canonical statements are a body, with the tokens that they spell. -/
theorem clause_of_spells {statements : List Node} {word : List Token}
    (canonical : Node.AreCanonical statements) (spells : Spells statements word) :
    Clause .body (.blockStmt statements) word [] :=
  clause_body canonical (fun _ _ _ => clause_of_fit) spells

end TreeWalker.Grammar
