import TreeWalker.Proofs.Tree.Distinction
import TreeWalker.Proofs.Tree.Polish

/-!
# Expressions in reverse Polish order

A plain expression is shown in reverse Polish order as its form without the groupings.  The
words of the form are operators and operands that are told apart by their letters, except
for the minus sign, which is written alike for negation and for subtraction.  So the text
tells the expression, but for its groupings, if it is known which of its minus signs are
negations, and also if there are only negations or only subtractions in it.
-/

namespace TreeWalker

/-! ## Letters of operators and operands -/

/-- Operators are keywords, or have no character of a word in them. -/
theorem isKeyword_or_noWordPart {letters : List Char}
    (isHead : letters ∈ unaryHeads ∨ letters ∈ binaryHeads) :
    (∃ keyword : Keyword, letters = keyword.spelling) ∨
      letters.any Lexical.isWordPart = false := by
  have heads : ∀ letters ∈ unaryHeads ++ binaryHeads, letters = Keyword.kwOr.spelling ∨
      letters = Keyword.kwAnd.spelling ∨ letters.any Lexical.isWordPart = false := by
    decide
  rcases heads letters (List.mem_append.mpr isHead) with isOr | isAnd | others
  · exact .inl ⟨.kwOr, isOr⟩
  · exact .inl ⟨.kwAnd, isAnd⟩
  · exact .inr others

/-- What is no keyword and has a character of a word in it is usual as an operand. -/
theorem Word.isUsual_operand {letters : List Char} {c : Char}
    (noKeyword : ∀ keyword : Keyword, letters ≠ keyword.spelling) (member : c ∈ letters)
    (isPart : Lexical.isWordPart c = true) : (Word.operand letters).IsUsual := by
  have noHead : ¬ (letters ∈ unaryHeads ∨ letters ∈ binaryHeads) := by
    intro isHead
    rcases isKeyword_or_noWordPart isHead with ⟨keyword, same⟩ | noPart
    · exact noKeyword keyword same
    · rw [List.any_eq_true.mpr ⟨c, member, isPart⟩] at noPart
      cases noPart
  exact not_or.mp noHead

theorem Value.IsPlain.isUsual {value : Value} (plain : value.IsPlain) :
    (Word.operand value.display.toList).IsUsual := by
  cases value with
  | nil => decide
  | boolean b => cases b <;> decide
  | number x =>
      obtain ⟨c, member, isDigit⟩ := Decimal.exists_digit_shownNumber plain
      refine Word.isUsual_operand (shownNumber_ne_keyword plain) member ?_
      simp [Lexical.isWordPart, Char.isAlphanum, isDigit]
  | string text | integer n => exact plain.elim

namespace Token

variable {token : Token}

theorem IsScanned.isUsual_name (scanned : token.IsScanned) (isName : token.kind = .identifier) :
    (Word.operand token.lexeme.toList).IsUsual := by
  obtain ⟨word, -, noKeyword⟩ := scanned.identifier isName
  obtain ⟨c, rest, letters, -, -⟩ := id word
  have member : c ∈ token.lexeme.toList := by simp [letters]
  exact Word.isUsual_operand (fun keyword same => noKeyword keyword same.symm) member
    (word.parts c member)

/-- The minus sign is told by its letters among the symbols and keywords. -/
theorem IsScanned.isMinus_iff {letters : List Char} (scanned : token.IsScanned)
    (spelled : token.kind.letters? = some letters) :
    token.lexeme.toList = ['-'] ↔ token.kind = .symbol .minus := by
  constructor
  · intro isMinus
    rw [(scanned.letters spelled).1] at isMinus
    subst isMinus
    exact TokenKind.eq_of_letters spelled rfl
  · intro kind
    exact (scanned.letters (congrArg TokenKind.letters? kind)).1

/-- An operator with one operand is usual. -/
theorem IsScanned.isUsual_unary (scanned : token.IsScanned)
    (isUnary : token.kind = .symbol .bang ∨ token.kind = .symbol .minus) :
    (Word.unary token.lexeme.toList).IsUsual := by
  rcases isUnary with kind | kind <;>
    · rw [(scanned.letters (congrArg TokenKind.letters? kind)).1]
      decide

/-- An operator with two operands is usual, and not written like an assignment. -/
theorem IsScanned.isUsual_binary (scanned : token.IsScanned)
    (isOperator : (Node.binaryStrength? token.kind).isSome ∨
      (Node.logicalStrength? token.kind).isSome) :
    (Word.binary token.lexeme.toList).IsUsual ∧ token.lexeme.toList ≠ ['='] := by
  have head : ∃ letters, token.kind.letters? = some letters ∧ letters ∈ binaryHeads ∧
      letters ≠ ['='] := by
    rcases isOperator with isBinary | isLogical
    · unfold Node.binaryStrength? at isBinary
      split at isBinary
      all_goals
        first
        | next kind => exact ⟨_, by rw [kind]; rfl, by decide, by decide⟩
        | cases isBinary
    · unfold Node.logicalStrength? at isLogical
      split at isLogical
      all_goals
        first
        | next kind => exact ⟨_, by rw [kind]; rfl, by decide, by decide⟩
        | cases isLogical
  obtain ⟨letters, spelled, usual, noEqual⟩ := head
  rw [(scanned.letters spelled).1]
  exact ⟨usual, noEqual⟩

end Token

namespace Node

/-- The expression without its groupings. -/
def ungrouped : Node → Node
  | grouping inner => inner.ungrouped
  | unary operator operand => unary operator operand.ungrouped
  | binary left operator right => binary left.ungrouped operator right.ungrouped
  | logical left operator right => logical left.ungrouped operator right.ungrouped
  | assign name value => assign name value.ungrouped
  | other => other

/-- What the minus signs of an expression stand for, in the order in which they stand in the
text. -/
def minuses : Node → List Minus
  | grouping inner => inner.minuses
  | unary operator operand =>
    operand.minuses ++ if operator.kind = .symbol .minus then [.negation] else []
  | binary left operator right =>
    left.minuses ++ right.minuses ++
      if operator.kind = .symbol .minus then [.subtraction] else []
  | logical left _ right => left.minuses ++ right.minuses
  | assign _ value => value.minuses
  | _ => []

variable {node node' : Node}

theorem IsPlainExpression.ungrouped (plain : node.IsPlainExpression) :
    node.ungrouped.IsPlainExpression := by
  induction node using Node.inductionOn with
  | literal | reference => exact plain
  | grouping inner inductionHypothesis => exact inductionHypothesis plain
  | unary operator operand inductionHypothesis =>
      exact ⟨plain.1, plain.2.1, inductionHypothesis plain.2.2⟩
  | binary left operator right leftHypothesis rightHypothesis
  | logical left operator right leftHypothesis rightHypothesis =>
      exact ⟨plain.1, plain.2.1, leftHypothesis plain.2.2.1, rightHypothesis plain.2.2.2⟩
  | assign name value inductionHypothesis =>
      exact ⟨plain.1, plain.2.1, inductionHypothesis plain.2.2⟩
  | absent | exprStmt | printStmt | varStmt | blockStmt | ifStmt | whileStmt => exact plain.elim

/-- What is shown in reverse Polish order is the form without the groupings. -/
theorem IsPlainExpression.shows_reversePolish (plain : node.IsPlainExpression)
    (toll : Value → Nat) (levels : Nat) :
    Shows (node.reversePolish toll levels) node.ungrouped.form.polish := by
  fun_induction reversePolish toll levels node with
  | case1 | case9 => exact .error
  | case2 => exact shows_valueText _ _ _
  | case7 => exact .pure rfl
  | case3 _ _ inductionHypothesis => exact inductionHypothesis plain
  | case4 _ _ _ inductionHypothesis | case8 _ _ _ inductionHypothesis =>
      exact (inductionHypothesis plain.2.2).bind fun text same =>
        .pure (by simp [Node.ungrouped, form, Form.polish, same])
  | case5 _ _ _ _ leftHypothesis rightHypothesis =>
      obtain ⟨isBinary, scanned, leftPlain, rightPlain⟩ := plain
      have noEqual := (scanned.isUsual_binary (.inl isBinary)).2
      exact (leftHypothesis leftPlain).bind fun text same =>
        (rightHypothesis rightPlain).bind fun text' same' =>
          .pure (by simp [Node.ungrouped, form, Form.polish, noEqual, same, same'])
  | case6 _ _ _ _ leftHypothesis rightHypothesis =>
      obtain ⟨isLogical, scanned, leftPlain, rightPlain⟩ := plain
      have noEqual := (scanned.isUsual_binary (.inr isLogical)).2
      exact (leftHypothesis leftPlain).bind fun text same =>
        (rightHypothesis rightPlain).bind fun text' same' =>
          .pure (by simp [Node.ungrouped, form, Form.polish, noEqual, same, same'])

theorem IsPlainExpression.usual_words (plain : node.IsPlainExpression) :
    ∀ word ∈ node.ungrouped.form.words, word.IsUsual := by
  induction node using Node.inductionOn with
  | literal value => exact List.forall_mem_singleton.mpr (Value.IsPlain.isUsual plain)
  | reference name => exact List.forall_mem_singleton.mpr (plain.2.isUsual_name plain.1)
  | grouping inner inductionHypothesis => exact inductionHypothesis plain
  | unary operator operand inductionHypothesis =>
      obtain ⟨isUnary, scanned, operandPlain⟩ := plain
      exact List.forall_mem_append.mpr ⟨inductionHypothesis operandPlain,
        List.forall_mem_singleton.mpr (scanned.isUsual_unary isUnary)⟩
  | binary left operator right leftHypothesis rightHypothesis =>
      obtain ⟨isBinary, scanned, leftPlain, rightPlain⟩ := plain
      exact Form.forall_mem_words_two (leftHypothesis leftPlain) (rightHypothesis rightPlain)
        (scanned.isUsual_binary (.inl isBinary)).1
  | logical left operator right leftHypothesis rightHypothesis =>
      obtain ⟨isLogical, scanned, leftPlain, rightPlain⟩ := plain
      exact Form.forall_mem_words_two (leftHypothesis leftPlain) (rightHypothesis rightPlain)
        (scanned.isUsual_binary (.inr isLogical)).1
  | assign name value inductionHypothesis =>
      obtain ⟨isName, scanned, valuePlain⟩ := plain
      have equal : (Word.binary "=".toList).IsUsual := by decide
      exact Form.forall_mem_words_two
        (List.forall_mem_singleton.mpr (scanned.isUsual_name isName))
        (inductionHypothesis valuePlain) equal
  | absent | exprStmt | printStmt | varStmt | blockStmt | ifStmt | whileStmt => exact plain.elim

/-- The minus signs of an expression are those among its words. -/
theorem IsPlainExpression.minuses_eq (plain : node.IsPlainExpression) :
    node.minuses = node.ungrouped.form.words.filterMap Word.minus? := by
  induction node using Node.inductionOn with
  | literal | reference => rfl
  | grouping inner inductionHypothesis => exact inductionHypothesis plain
  | unary operator operand inductionHypothesis =>
      obtain ⟨isUnary, scanned, operandPlain⟩ := plain
      obtain ⟨letters, spelled, -, -⟩ := letters_of_unary isUnary
      rw [minuses, Node.ungrouped, form, Form.words, List.filterMap_append,
        Word.filterMap_minus?_unary, inductionHypothesis operandPlain]
      simp only [scanned.isMinus_iff spelled]
  | binary left operator right leftHypothesis rightHypothesis =>
      obtain ⟨isBinary, scanned, leftPlain, rightPlain⟩ := plain
      obtain ⟨letters, spelled, -, -⟩ := letters_of_binary isBinary
      rw [minuses, Node.ungrouped, form, Form.words,
        if_neg (scanned.isUsual_binary (.inl isBinary)).2, List.filterMap_append,
        List.filterMap_append, Word.filterMap_minus?_binary, leftHypothesis leftPlain,
        rightHypothesis rightPlain]
      simp only [scanned.isMinus_iff spelled]
  | logical left operator right leftHypothesis rightHypothesis =>
      obtain ⟨isLogical, scanned, leftPlain, rightPlain⟩ := plain
      obtain ⟨letters, spelled, -, -⟩ := letters_of_logical isLogical
      have noMinus : operator.lexeme.toList ≠ ['-'] := by
        intro isMinus
        rw [(scanned.isMinus_iff spelled).mp isMinus] at isLogical
        cases isLogical
      rw [minuses, Node.ungrouped, form, Form.words,
        if_neg (scanned.isUsual_binary (.inr isLogical)).2, List.filterMap_append,
        List.filterMap_append, Word.filterMap_minus?_binary, if_neg noMinus, List.append_nil,
        leftHypothesis leftPlain, rightHypothesis rightPlain]
  | assign name value inductionHypothesis =>
      simp [minuses, Node.ungrouped, form, Form.words, Word.minus?,
        inductionHypothesis plain.2.2]
  | absent | exprStmt | printStmt | varStmt | blockStmt | ifStmt | whileStmt => exact plain.elim

/-- Plain expressions with one text in reverse Polish order are the same, but for their
groupings and the lines of their tokens, if their minus signs stand for the same things in
both, or if those of one of them do not mix. -/
theorem IsPlainExpression.same_of_reversePolish {toll toll' : Value → Nat}
    {levels levels' : Nat} {text : String}
    (plain : node.IsPlainExpression) (plain' : node'.IsPlainExpression)
    (renders : node.reversePolish toll levels = .ok text)
    (renders' : node'.reversePolish toll' levels' = .ok text)
    (known : node.minuses = node'.minuses ∨ ¬ Mixes node.minuses ∨ ¬ Mixes node'.minuses) :
    node.ungrouped.SameButLines node'.ungrouped := by
  have same : node.ungrouped.form.polish = node'.ungrouped.form.polish := by
    rw [← plain.shows_reversePolish toll levels text renders,
      ← plain'.shows_reversePolish toll' levels' text renders']
  rw [plain.minuses_eq, plain'.minuses_eq] at known
  exact plain.ungrouped.same_of_form plain'.ungrouped
    (Form.eq_of_polish plain.ungrouped.isLegible plain'.ungrouped.isLegible plain.usual_words
      plain'.usual_words same known)

end Node

end TreeWalker
