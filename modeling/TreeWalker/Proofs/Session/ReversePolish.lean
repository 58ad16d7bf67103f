import TreeWalker.Proofs.Grammar.LoneExpression
import TreeWalker.Proofs.Lexical.Joining
import TreeWalker.Proofs.Session.Distinction
import TreeWalker.Proofs.Tree.Parts
import TreeWalker.Proofs.Tree.ReversePolish

/-!
# Expressions of sources in reverse Polish order

An expression is read of a source on its own, or as a part of a statement.  If the source
has no problems of syntax, and if there is no string in the expression and no infinite
number, then its text in reverse Polish order tells the expression, but for the groupings
and the lines, as far as the minus signs in the text are told apart.  They are not told
apart by the text itself: two expressions that mix negation and subtraction may have one
text.
-/

namespace TreeWalker

open Grammar

namespace Node

/-! ## Parts of the trees of a source -/

variable {node child part : Node} {tokens : List Token} {mark : Mark}

/-- A canonical expression or statement that is grounded in the tokens, or no tree at all. -/
def IsTreeOf (tokens : List Token) (node : Node) : Prop :=
  node = absent ∨ node.IsExpressionOf tokens ∨ node.IsStatementOf tokens

theorem IsExpressionOf.of_mem_fragments (expr : node.IsExpressionOf tokens)
    (member : .tree child ∈ node.fragments) : child.IsExpressionOf tokens := by
  cases node with
  | literal | reference => simp [fragments] at member
  | grouping inner =>
      obtain rfl : child = inner := by simpa [fragments] using member
      exact expr.grouped
  | unary operator operand =>
      obtain rfl : child = operand := by simpa [fragments] using member
      exact expr.operated
  | binary left operator right =>
      have side : child = left ∨ child = right := by simpa [fragments] using member
      rcases side with rfl | rfl
      · exact expr.combined.1
      · exact expr.combined.2
  | logical left operator right =>
      have side : child = left ∨ child = right := by simpa [fragments] using member
      rcases side with rfl | rfl
      · exact expr.connected.1
      · exact expr.connected.2
  | assign name value =>
      obtain rfl : child = value := by simpa [fragments] using member
      exact expr.assigned
  | absent | exprStmt | printStmt | varStmt | blockStmt | ifStmt | whileStmt =>
      exact expr.canonical.elim

theorem IsStatementOf.of_mem_fragments (statement : node.IsStatementOf tokens)
    (member : .tree child ∈ node.fragments) : child.IsTreeOf tokens := by
  cases node with
  | exprStmt expr =>
      obtain rfl : child = expr := by simpa [fragments] using member
      exact .inr (.inl statement.evaluated)
  | printStmt expr =>
      obtain rfl : child = expr := by simpa [fragments] using member
      exact .inr (.inl statement.printed)
  | varStmt name initializer =>
      obtain rfl : child = initializer := by simpa [fragments] using member
      exact or_iff_not_imp_left.mpr fun present => .inl (statement.initialized present)
  | blockStmt body =>
      have inside : child ∈ body := by simpa [fragments] using member
      exact .inr (.inr (statement.inBlock child inside))
  | ifStmt condition thenBranch elseBranch =>
      have side : child = condition ∨ child = thenBranch ∨ child = elseBranch := by
        simpa [fragments] using member
      rcases side with rfl | rfl | rfl
      · exact .inr (.inl statement.tested)
      · exact .inr (.inr statement.ifTrue)
      · exact or_iff_not_imp_left.mpr fun present => .inr (statement.ifFalse present)
  | whileStmt condition body =>
      have side : child = condition ∨ child = body := by simpa [fragments] using member
      rcases side with rfl | rfl
      · exact .inr (.inl statement.looped.1)
      · exact .inr (.inr statement.looped.2)
  | absent | literal | grouping | unary | binary | logical | reference | assign =>
      rcases statement.canonical with canonical | canonical <;> exact canonical.elim

theorem IsTreeOf.of_isPartOf (tree : node.IsTreeOf tokens) (isPart : part.IsPartOf node) :
    part.IsTreeOf tokens := by
  induction isPart with
  | whole => exact tree
  | inside member _ inductionHypothesis =>
      refine inductionHypothesis ?_
      rcases tree with rfl | expr | statement
      · exact absurd member List.not_mem_nil
      · exact .inr (.inl (expr.of_mem_fragments member))
      · exact statement.of_mem_fragments member

/-- Only an expression has a text in reverse Polish order. -/
theorem IsTreeOf.isExpression {toll : Value → Nat} {levels : Nat} {text : String}
    (tree : node.IsTreeOf tokens) (renders : node.reversePolish toll levels = .ok text) :
    node.IsExpression := by
  rcases tree with rfl | expr | statement
  · cases levels <;> cases renders
  · exact expr.canonical
  · cases levels with
    | zero => cases renders
    | succ levels =>
        cases node with
        | exprStmt | printStmt | varStmt | blockStmt | ifStmt | whileStmt => cases renders
        | absent | literal | grouping | unary | binary | logical | reference | assign =>
            rcases statement.canonical with canonical | canonical <;> exact canonical.elim

theorem mem_spelling_of_mem_fragments (member : .tree child ∈ node.fragments)
    (isMark : mark ∈ child.spelling) : mark ∈ node.spelling := by
  cases node with
  | absent | literal | reference => simp [fragments] at member
  | grouping | unary | assign | exprStmt | printStmt =>
      cases (by simpa [fragments] using member : child = _)
      simp [spelling, isMark]
  | binary left operator right | logical left operator right =>
      rcases (by simpa [fragments] using member : child = left ∨ child = right) with rfl | rfl <;>
        simp [spelling, isMark]
  | varStmt name initializer =>
      obtain rfl : child = initializer := by simpa [fragments] using member
      by_cases present : child = .absent
      · subst present
        exact absurd isMark List.not_mem_nil
      · simp [spelling_varInit present, isMark]
  | blockStmt body =>
      have inside : child ∈ body := by simpa [fragments] using member
      simp [spelling, IsStatementOf.mem_spellingOfAll inside isMark]
  | ifStmt condition thenBranch elseBranch =>
      have side : child = condition ∨ child = thenBranch ∨ child = elseBranch := by
        simpa [fragments] using member
      refine IsStatementOf.mem_spelling_ifStmt ?_
      rcases side with rfl | rfl | rfl
      · exact .inl isMark
      · exact .inr (.inl isMark)
      · exact .inr (.inr isMark)
  | whileStmt condition body =>
      rcases (by simpa [fragments] using member : child = condition ∨ child = body) with
        rfl | rfl <;> simp [spelling, isMark]

theorem mem_spelling_of_isPartOf (isPart : part.IsPartOf node) (isMark : mark ∈ part.spelling) :
    mark ∈ node.spelling := by
  induction isPart with
  | whole => exact isMark
  | inside member _ inductionHypothesis =>
      exact mem_spelling_of_mem_fragments member inductionHypothesis

end Node

/-! ## Expressions of a source -/

variable {limit : Nat} {source source' : List Char} {expr expr' root : Node}

/-- A tree that is read of a source without problems of syntax: a part of a statement, or of
an expression on its own. -/
inductive IsReadFrom (limit : Nat) (source : List Char) (part : Node) : Prop where
  | program {statement : Node} (clean : (Reading.ofSource limit source).parsed.diagnostics = [])
    (member : statement ∈ (Reading.ofSource limit source).statements)
    (isPart : part.IsPartOf statement)
  | alone {root : Node}
    (parsed : Parsed.ofExpression limit (Lexical.Scan.ofText source).tokens = ⟨some root, []⟩)
    (isPart : part.IsPartOf root)

/-- The tokens of a source without its end. -/
theorem Lexical.isSource_bodyOf (source : List Char) :
    IsSource (Lexical.bodyOf source) (Lexical.endToken (Lexical.lastLine source)) :=
  ⟨Lexical.kind_ne_eof_of_mem_bodyOf, rfl⟩

/-- An expression on its own that is parsed without a report is canonical and spells the
tokens. -/
theorem written_of_ofExpression {word : List Token} {eof : Token} (source : IsSource word eof)
    (parsed : Parsed.ofExpression limit (word ++ [eof]) = ⟨some root, []⟩) : Written root word := by
  rcases ofExpression_cases limit ((ended_singleton source.isEnd).append_left word) with
    ⟨expr, after, run, same, -⟩ | ⟨nothing, -⟩
  · obtain ⟨⟨⟩, noReport⟩ := Parsed.mk.inj (parsed.symm.trans same)
    obtain ⟨strays, phrase, reports⟩ := phrase_of_wholeExpression source run
    have noStray : strays = [] := by
      have reported := reports.diagnostics_eq
      rw [show after.errors.map SyntaxError.diagnostic = [] from noReport.symm] at reported
      exact List.map_eq_nil_iff.mp reported.symm
    exact phrase.reads noStray
  · rw [parsed] at nothing
    cases nothing

/-- A tree of some tokens, whose marks fit the tokens. -/
structure Node.IsOf (word : List Token) (node : Node) : Prop where
  tree : node.IsTreeOf word
  fits : ∀ mark ∈ node.spelling, ∃ token ∈ word, mark.Fits token

theorem Node.IsOf.of_isPartOf {word : List Token} {part node : Node} (whole : node.IsOf word)
    (isPart : part.IsPartOf node) : part.IsOf word :=
  ⟨whole.tree.of_isPartOf isPart, fun mark isMark =>
    whole.fits mark (mem_spelling_of_isPartOf isPart isMark)⟩

theorem IsReadFrom.isOf (read : IsReadFrom limit source expr) :
    expr.IsOf (Lexical.bodyOf source) := by
  have carries : ∀ token ∈ Lexical.bodyOf source, token.Carries := Lexical.carries_of_mem_bodyOf
  cases read with
  | @program statement clean member isPart =>
      have parsed := Reading.parsed_of_noReport clean
      have body := body_of_parsed Lexical.kind_ne_eof_of_mem_bodyOf rfl parsed
      obtain ⟨fits, -⟩ := spells_of_parsed Lexical.kind_ne_eof_of_mem_bodyOf rfl carries parsed
      have whole : statement.IsOf (Lexical.bodyOf source) :=
        ⟨.inr (.inr (body.areStatementsOf carries statement member)), fun mark isMark =>
          Mark.exists_of_fit fits mark (Node.IsStatementOf.mem_spellingOfAll member isMark)⟩
      exact whole.of_isPartOf isPart
  | @alone root parsed isPart =>
      rw [Lexical.tokens_ofText] at parsed
      obtain ⟨canonical, spelt⟩ := written_of_ofExpression (Lexical.isSource_bodyOf source) parsed
      have fits := spelt carries
      have whole : root.IsOf (Lexical.bodyOf source) :=
        ⟨.inr (.inl ⟨canonical, Mark.grounded_of_fit fits (List.Subset.refl _)⟩),
          Mark.exists_of_fit fits⟩
      exact whole.of_isPartOf isPart

/-- What is read of a source, has a text in reverse Polish order and is bounded, is a plain
expression. -/
theorem IsReadFrom.isPlain {toll : Value → Nat} {levels : Nat} {text : String}
    (read : IsReadFrom limit source expr)
    (bounded : ∀ mark ∈ expr.spelling, mark.IsBounded)
    (renders : expr.reversePolish toll levels = .ok text) : expr.IsPlainExpression := by
  obtain ⟨tree, fits⟩ := read.isOf
  refine (tree.isExpression renders).isPlain fun mark isMark => ?_
  obtain ⟨token, isToken, fitsToken⟩ := fits mark isMark
  exact Mark.isPlain_of_fits fitsToken (Lexical.isScanned_of_mem_bodyOf token isToken)
    (bounded mark isMark)

/-- Expressions without strings and without infinite numbers, read of sources without
problems of syntax, are the same, but for their groupings and the lines of their tokens, if
they have one text in reverse Polish order, and if the minus signs of the text stand for the
same things in both, or those of one of them do not mix. -/
theorem same_expression_of_reversePolish (limits : Limits) {text : String}
    (read : IsReadFrom limits.parsing source expr)
    (read' : IsReadFrom limits.parsing source' expr')
    (bounded : ∀ mark ∈ expr.spelling, mark.IsBounded)
    (bounded' : ∀ mark ∈ expr'.spelling, mark.IsBounded)
    (shown : expr.reversePolish limits.toll limits.polishing = .ok text)
    (shown' : expr'.reversePolish limits.toll limits.polishing = .ok text)
    (known : expr.minuses = expr'.minuses ∨ ¬ Mixes expr.minuses ∨ ¬ Mixes expr'.minuses) :
    expr.ungrouped.SameButLines expr'.ungrouped :=
  (read.isPlain bounded shown).same_of_reversePolish (read'.isPlain bounded' shown') shown shown'
    known

/-- A minus sign in the given line. -/
def minusSign (line : Int) : Token :=
  ⟨.symbol .minus, "-", .nil, line⟩

/-- A statement over two lines. -/
def lessSumSource : List Char :=
  "print a\n- (b + 1.50);".toList

/-- The expression of the statement. -/
def lessSum : Node :=
  .binary (.reference (letter "a")) (minusSign 2) (.grouping (.binary
    (.reference ⟨.identifier, "b", .nil, 2⟩) ⟨.symbol .plus, "+", .nil, 2⟩
    (.literal (.number 1.5))))

/-- An expression on its own. -/
def groupLessSumSource : List Char :=
  "(a) - (b + 1.5)".toList

/-- The tree of the expression. -/
def groupLessSum : Node :=
  .binary (.grouping (.reference (letter "a"))) (minusSign 1) (.grouping (.binary
    (.reference (letter "b")) ⟨.symbol .plus, "+", .nil, 1⟩ (.literal (.number 1.5))))

/-- Layout, parentheses and the way a number is written make no difference. -/
theorem same_expression_of_reversePolish_layout :
    let shown (node : Node) := node.reversePolish sampleLimits.toll sampleLimits.polishing
    IsReadFrom sampleLimits.parsing lessSumSource lessSum ∧
      IsReadFrom sampleLimits.parsing groupLessSumSource groupLessSum ∧
      (∀ mark ∈ lessSum.spelling, mark.IsBounded) ∧
      (∀ mark ∈ groupLessSum.spelling, mark.IsBounded) ∧
      shown lessSum = .ok "a b 1.5 + -" ∧ shown groupLessSum = .ok "a b 1.5 + -" ∧
      lessSum.minuses = groupLessSum.minuses ∧
      lessSum.ungrouped.SameButLines groupLessSum.ungrouped := by
  intro shown
  have scanned : (Lexical.Scan.ofText lessSumSource).tokens =
      [⟨.keyword .kwPrint, "print", .nil, 1⟩, letter "a", minusSign 2,
        ⟨.symbol .leftParen, "(", .nil, 2⟩, ⟨.identifier, "b", .nil, 2⟩,
        ⟨.symbol .plus, "+", .nil, 2⟩, ⟨.number, "1.50", .number 1.5, 2⟩,
        ⟨.symbol .rightParen, ")", .nil, 2⟩, ⟨.symbol .semicolon, ";", .nil, 2⟩,
        ⟨.eof, "", .nil, 2⟩] := by
    decide +kernel
  have scanned' : (Lexical.Scan.ofText groupLessSumSource).tokens =
      [⟨.symbol .leftParen, "(", .nil, 1⟩, letter "a", ⟨.symbol .rightParen, ")", .nil, 1⟩,
        minusSign 1, ⟨.symbol .leftParen, "(", .nil, 1⟩, letter "b",
        ⟨.symbol .plus, "+", .nil, 1⟩, ⟨.number, "1.5", .number 1.5, 1⟩,
        ⟨.symbol .rightParen, ")", .nil, 1⟩, ⟨.eof, "", .nil, 1⟩] := by
    decide +kernel
  have parsed : (Reading.ofSource sampleLimits.parsing lessSumSource).parsed =
      ⟨[.printStmt lessSum], []⟩ := by
    rw [Reading.parsed_ofSource, scanned]
    rfl
  have parsed' : Parsed.ofExpression sampleLimits.parsing
      (Lexical.Scan.ofText groupLessSumSource).tokens = ⟨some groupLessSum, []⟩ := by
    rw [scanned']
    rfl
  have read : IsReadFrom sampleLimits.parsing lessSumSource lessSum := by
    have member : .printStmt lessSum ∈
        (Reading.ofSource sampleLimits.parsing lessSumSource).statements := by
      rw [Reading.statements, parsed]
      exact List.mem_cons_self
    exact .program (by rw [parsed]) member (.inside List.mem_cons_self .whole)
  have read' : IsReadFrom sampleLimits.parsing groupLessSumSource groupLessSum :=
    .alone parsed' .whole
  have bounded : ∀ mark ∈ lessSum.spelling, mark.IsBounded := by decide +kernel
  have bounded' : ∀ mark ∈ groupLessSum.spelling, mark.IsBounded := by decide +kernel
  have polish : shown lessSum = .ok "a b 1.5 + -" := by decide +kernel
  have polish' : shown groupLessSum = .ok "a b 1.5 + -" := by decide +kernel
  exact ⟨read, read', bounded, bounded', polish, polish', rfl,
    same_expression_of_reversePolish sampleLimits read read' bounded bounded' polish polish'
      (.inl rfl)⟩

/-- The expression `a - -b`. -/
def lessNegated : Node :=
  .binary (.reference (letter "a")) (minusSign 1)
    (.unary (minusSign 1) (.reference (letter "b")))

/-- The expression `-(a - b)`. -/
def negatedLess : Node :=
  .unary (minusSign 1)
    (.grouping (.binary (.reference (letter "a")) (minusSign 1) (.reference (letter "b"))))

/-- Where negation and subtraction mix, two expressions have one text in reverse Polish
order. -/
theorem same_reversePolish_mixed :
    let shown (node : Node) := node.reversePolish sampleLimits.toll sampleLimits.polishing
    IsReadFrom sampleLimits.parsing "a - -b".toList lessNegated ∧
      IsReadFrom sampleLimits.parsing "-(a - b)".toList negatedLess ∧
      (∀ mark ∈ lessNegated.spelling, mark.IsBounded) ∧
      (∀ mark ∈ negatedLess.spelling, mark.IsBounded) ∧
      shown lessNegated = .ok "a b - -" ∧ shown negatedLess = .ok "a b - -" ∧
      ¬ lessNegated.ungrouped.SameButLines negatedLess.ungrouped := by
  intro shown
  have scanned : (Lexical.Scan.ofText "a - -b".toList).tokens =
      [letter "a", minusSign 1, minusSign 1, letter "b", ⟨.eof, "", .nil, 1⟩] := by
    decide +kernel
  have scanned' : (Lexical.Scan.ofText "-(a - b)".toList).tokens =
      [minusSign 1, ⟨.symbol .leftParen, "(", .nil, 1⟩, letter "a", minusSign 1, letter "b",
        ⟨.symbol .rightParen, ")", .nil, 1⟩, ⟨.eof, "", .nil, 1⟩] := by
    decide +kernel
  have parsed : Parsed.ofExpression sampleLimits.parsing
      (Lexical.Scan.ofText "a - -b".toList).tokens = ⟨some lessNegated, []⟩ := by
    rw [scanned]
    rfl
  have parsed' : Parsed.ofExpression sampleLimits.parsing
      (Lexical.Scan.ofText "-(a - b)".toList).tokens = ⟨some negatedLess, []⟩ := by
    rw [scanned']
    rfl
  exact ⟨.alone parsed .whole, .alone parsed' .whole, by decide, by decide, rfl, rfl, nofun⟩

end TreeWalker
