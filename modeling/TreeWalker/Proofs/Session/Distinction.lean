import TreeWalker.Proofs.Decimal.Reading
import TreeWalker.Proofs.Session.Safety
import TreeWalker.Proofs.Tree.Distinction

/-!
# The outlines of sources

What is read of a source without problems of syntax is made of the tokens that were
scanned.  If there is no string in it and no infinite number, its outline is that of no
other such program, but for the lines of the tokens.
-/

namespace TreeWalker

open Grammar

/-- A value that is no string and no infinite number. -/
def Value.IsBounded : Value → Prop
  | string _ => False
  | number x => Decimal.Magnitude.ofFloat x ≠ .infinite
  | _ => True

instance : DecidablePred Value.IsBounded
  | .string _ => inferInstanceAs (Decidable False)
  | .number x => inferInstanceAs (Decidable (Decimal.Magnitude.ofFloat x ≠ .infinite))
  | .nil | .boolean _ | .integer _ => inferInstanceAs (Decidable True)

/-- If a mark stands for a value, that is no string and no infinite number. -/
def Mark.IsBounded : Mark → Prop
  | constant value => value.IsBounded
  | _ => True

instance : DecidablePred Mark.IsBounded
  | .constant value => inferInstanceAs (Decidable value.IsBounded)
  | .fixed _ | .held _ => inferInstanceAs (Decidable True)

/-- What a mark holds is scanned, or is shown like nothing else. -/
def Mark.IsPlain : Mark → Prop
  | fixed _ => True
  | held token => token.IsScanned
  | constant value => value.IsPlain

/-! ## From marks to trees -/

namespace Node

/-- Canonical expressions with plain marks are plain. -/
theorem IsExpression.isPlain {node : Node} (canonical : node.IsExpression)
    (plain : ∀ mark ∈ node.spelling, mark.IsPlain) : node.IsPlainExpression := by
  induction node using Node.inductionOn with
  | literal value => exact plain _ List.mem_cons_self
  | grouping inner inductionHypothesis =>
      exact inductionHypothesis canonical fun mark member => plain mark (by simp [spelling, member])
  | unary operator operand inductionHypothesis =>
      obtain ⟨isUnary, -, operandCanonical⟩ := canonical
      exact ⟨isUnary, plain _ List.mem_cons_self, inductionHypothesis operandCanonical
        fun mark member => plain mark (List.mem_cons_of_mem _ member)⟩
  | binary left operator right leftHypothesis rightHypothesis =>
      obtain ⟨⟨_, strength, -⟩, leftCanonical, rightCanonical⟩ := canonical
      obtain ⟨leftPlain, others⟩ := List.forall_mem_append.mp plain
      obtain ⟨scanned, rightPlain⟩ := List.forall_mem_cons.mp others
      exact ⟨by rw [strength]; rfl, scanned, leftHypothesis leftCanonical leftPlain,
        rightHypothesis rightCanonical rightPlain⟩
  | logical left operator right leftHypothesis rightHypothesis =>
      obtain ⟨⟨_, strength, -⟩, leftCanonical, rightCanonical⟩ := canonical
      obtain ⟨leftPlain, others⟩ := List.forall_mem_append.mp plain
      obtain ⟨scanned, rightPlain⟩ := List.forall_mem_cons.mp others
      exact ⟨by rw [strength]; rfl, scanned, leftHypothesis leftCanonical leftPlain,
        rightHypothesis rightCanonical rightPlain⟩
  | reference name => exact ⟨canonical, plain _ List.mem_cons_self⟩
  | assign name value inductionHypothesis =>
      obtain ⟨scanned, others⟩ := List.forall_mem_cons.mp plain
      exact ⟨canonical.1, scanned, inductionHypothesis canonical.2
        (List.forall_mem_cons.mp others).2⟩
  | absent | exprStmt | printStmt | varStmt | blockStmt | ifStmt | whileStmt =>
      exact canonical.elim

theorem IsVariable.isPlain {node : Node} (canonical : node.IsVariable)
    (plain : ∀ mark ∈ node.spelling, mark.IsPlain) : node.IsPlainStatement := by
  cases node with
  | varStmt name initializer =>
      obtain ⟨isName, initializerCanonical⟩ := canonical
      rcases initializerCanonical with rfl | initializerCanonical
      · exact ⟨isName, plain (.held name) (by simp [spelling]), Or.inl rfl⟩
      · have present : initializer ≠ .absent := by
          rintro rfl
          exact initializerCanonical
        rw [spelling_varInit present] at plain
        refine ⟨isName, plain (.held name) (by simp), Or.inr (initializerCanonical.isPlain ?_)⟩
        exact fun mark member => plain mark (by simp [member])
  | _ => exact canonical.elim

/-- Canonical statements with plain marks are plain. -/
theorem IsStatement.isPlain {node : Node} (canonical : node.IsVariable ∨ node.IsStatement)
    (plain : ∀ mark ∈ node.spelling, mark.IsPlain) : node.IsPlainStatement := by
  induction node using Node.inductionOn with
  | exprStmt expr =>
      have exprCanonical : expr.IsExpression := canonical.resolve_left id
      exact exprCanonical.isPlain fun mark member => plain mark (List.mem_append_left _ member)
  | printStmt expr =>
      have exprCanonical : expr.IsExpression := canonical.resolve_left id
      exact exprCanonical.isPlain fun mark member =>
        plain mark (List.mem_cons_of_mem _ (List.mem_append_left _ member))
  | varStmt name initializer => exact (canonical.resolve_right id).isPlain plain
  | blockStmt body inductionHypothesis =>
      have bodyCanonical : AreCanonical body := canonical.resolve_left id
      refine arePlain_iff.mpr fun node member => ?_
      have nodeCanonical :=
        Evaluation.isVariable_or_isStatement_of_mem bodyCanonical node member
      refine inductionHypothesis node member nodeCanonical fun mark isMark => ?_
      exact plain mark (List.mem_cons_of_mem _
        (List.mem_append_left _ (IsStatementOf.mem_spellingOfAll member isMark)))
  | ifStmt condition thenBranch elseBranch _ thenHypothesis elseHypothesis =>
      obtain ⟨testCanonical, thenCanonical, elseCanonical⟩ :=
        Evaluation.isStatement_parts (canonical.resolve_left id)
      have inside {mark : Mark} (member : mark ∈ condition.spelling ∨ mark ∈ thenBranch.spelling ∨
          mark ∈ elseBranch.spelling) : mark.IsPlain :=
        plain mark (IsStatementOf.mem_spelling_ifStmt member)
      refine ⟨testCanonical.isPlain fun mark member => inside (Or.inl member),
        thenHypothesis (Or.inr thenCanonical) fun mark member => inside (Or.inr (Or.inl member)),
        or_iff_not_imp_left.mpr fun present => ?_⟩
      exact elseHypothesis (Or.inr (elseCanonical present)) fun mark member =>
        inside (Or.inr (Or.inr member))
  | whileStmt condition body _ inductionHypothesis =>
      obtain ⟨testCanonical, bodyCanonical⟩ : condition.IsExpression ∧ body.IsStatement :=
        canonical.resolve_left id
      have inside (mark : Mark) (member : mark ∈ condition.spelling ∨ mark ∈ body.spelling) :
          mark.IsPlain :=
        plain mark (by rcases member with member | member <;> simp [spelling, member])
      exact ⟨testCanonical.isPlain fun mark member => inside mark (Or.inl member),
        inductionHypothesis (Or.inr bodyCanonical) fun mark member => inside mark (Or.inr member)⟩
  | absent | literal | grouping | unary | binary | logical | reference | assign =>
      rcases canonical with canonical | canonical <;> exact canonical.elim

end Node

/-! ## Sources -/

theorem Lexical.isScanned_of_mem_bodyOf {text : List Char} :
    ∀ token ∈ bodyOf text, token.IsScanned :=
  forall_mem_bodyOf fun piece line => ⟨_, _, _, line, _, piece, rfl⟩

/-- A number that was scanned is a number. -/
theorem Token.IsScanned.number {token : Token} {x : Float} (scanned : token.IsScanned)
    (isNumber : token.kind = .number) (carried : token.literal = .number x) :
    Decimal.Magnitude.ofFloat x ≠ .undefined := by
  obtain ⟨kind, text, literal, line, rest, piece, rfl⟩ := scanned
  cases piece with
  | number =>
      cases carried
      exact Decimal.readNumeral_ne_undefined _ _
  | symbol | keyword | identifier | string => cases isNumber

/-- A bounded mark is plain if a scanned token fits it. -/
theorem Mark.isPlain_of_fits {mark : Mark} {token : Token} (fits : mark.Fits token)
    (scanned : token.IsScanned) (bounded : mark.IsBounded) : mark.IsPlain := by
  cases mark with
  | fixed kind => trivial
  | held same =>
      cases fits
      exact scanned
  | constant value =>
      cases value with
      | nil | boolean b => trivial
      | number x => exact ⟨bounded, scanned.number fits.1 fits.2⟩
      | string text => exact bounded.elim
      | integer n => exact fits.elim

theorem Mark.exists_of_fit {marks : List Mark} {word : List Token} (fits : Fit marks word) :
    ∀ mark ∈ marks, ∃ token ∈ word, mark.Fits token := by
  induction fits with
  | nil => exact fun _ => nofun
  | cons first _ inductionHypothesis =>
      refine List.forall_mem_cons.mpr ⟨⟨_, List.mem_cons_self, first⟩, fun mark member => ?_⟩
      obtain ⟨token, isToken, fits⟩ := inductionHypothesis mark member
      exact ⟨token, List.mem_cons_of_mem _ isToken, fits⟩

/-- What is read without problems of syntax, and is bounded, is plain. -/
theorem Reading.arePlain {limit : Nat} {source : List Char}
    (clean : (ofSource limit source).parsed.diagnostics = [])
    (bounded : ∀ mark ∈ Node.spellingOfAll (ofSource limit source).statements, mark.IsBounded) :
    ∀ statement ∈ (ofSource limit source).statements, statement.IsPlainStatement := by
  obtain ⟨fits, canonical⟩ := spells_of_parsed Lexical.kind_ne_eof_of_mem_bodyOf rfl
    Lexical.carries_of_mem_bodyOf (parsed_of_noReport clean)
  have plain : ∀ mark ∈ Node.spellingOfAll (ofSource limit source).statements, mark.IsPlain := by
    intro mark member
    obtain ⟨token, isToken, fitsToken⟩ := Mark.exists_of_fit fits mark member
    exact Mark.isPlain_of_fits fitsToken (Lexical.isScanned_of_mem_bodyOf token isToken)
      (bounded mark member)
  intro statement member
  exact Node.IsStatement.isPlain
    (Evaluation.isVariable_or_isStatement_of_mem canonical statement member)
    fun mark isMark => plain mark (Node.IsStatementOf.mem_spellingOfAll member isMark)

/-- Programs without problems of syntax, without strings and without infinite numbers
are the same, but for the lines of their tokens, if their outlines are. -/
theorem same_program_of_outline (limits : Limits) {source source' : List Char} {text : String}
    (clean : (Reading.ofSource limits.parsing source).parsed.diagnostics = [])
    (clean' : (Reading.ofSource limits.parsing source').parsed.diagnostics = [])
    (bounded : ∀ mark ∈ Node.spellingOfAll (Reading.ofSource limits.parsing source).statements,
      mark.IsBounded)
    (bounded' : ∀ mark ∈ Node.spellingOfAll (Reading.ofSource limits.parsing source').statements,
      mark.IsBounded)
    (shown : Node.concatenated (Node.outline limits.stride limits.toll limits.outlining 0)
      (Reading.ofSource limits.parsing source).statements = .ok text)
    (shown' : Node.concatenated (Node.outline limits.stride limits.toll limits.outlining 0)
      (Reading.ofSource limits.parsing source').statements = .ok text) :
    Node.AllAlike (fun _ _ => True) (Reading.ofSource limits.parsing source).statements
      (Reading.ofSource limits.parsing source').statements :=
  Node.same_of_outlines (Reading.arePlain clean bounded) (Reading.arePlain clean' bounded')
    shown shown'

/-- A program in one line. -/
def choiceLine : List Char :=
  "if (a) b = -1.5; else { print nil; }".toList

/-- The program over several lines, with another numeral. -/
def choiceLines : List Char :=
  "if (a)\n  b = -1.50;\nelse { print nil; } // done".toList

/-- Levels for programs that are not nested deeply, where operations take more than one level
and the text of a value takes one. -/
def sampleLimits : Limits :=
  ⟨100, 100, 100, 100, 3, fun _ => 1⟩

/-- Both layouts of the program have the same outline. -/
theorem same_program_of_outline_choice :
    let text := "If a\n  Expression (= b (- 1.5))\nElse\n  Block\n    Print nil\n"
    let shown := Node.concatenated
      (Node.outline sampleLimits.stride sampleLimits.toll sampleLimits.outlining 0)
    (Reading.ofSource sampleLimits.parsing choiceLine).parsed.diagnostics = [] ∧
      (Reading.ofSource sampleLimits.parsing choiceLines).parsed.diagnostics = [] ∧
      (∀ mark ∈ Node.spellingOfAll (Reading.ofSource sampleLimits.parsing choiceLine).statements,
        mark.IsBounded) ∧
      (∀ mark ∈ Node.spellingOfAll (Reading.ofSource sampleLimits.parsing choiceLines).statements,
        mark.IsBounded) ∧
      shown (Reading.ofSource sampleLimits.parsing choiceLine).statements = .ok text ∧
      shown (Reading.ofSource sampleLimits.parsing choiceLines).statements = .ok text ∧
      Node.AllAlike (fun _ _ => True)
        (Reading.ofSource sampleLimits.parsing choiceLine).statements
        (Reading.ofSource sampleLimits.parsing choiceLines).statements := by
  intro text shown
  have clean : (Reading.ofSource sampleLimits.parsing choiceLine).parsed.diagnostics = [] := by
    decide +kernel
  have clean' : (Reading.ofSource sampleLimits.parsing choiceLines).parsed.diagnostics = [] := by
    decide +kernel
  have bounded : ∀ mark ∈
      Node.spellingOfAll (Reading.ofSource sampleLimits.parsing choiceLine).statements,
      mark.IsBounded := by decide +kernel
  have bounded' : ∀ mark ∈
      Node.spellingOfAll (Reading.ofSource sampleLimits.parsing choiceLines).statements,
      mark.IsBounded := by decide +kernel
  have outlined : shown (Reading.ofSource sampleLimits.parsing choiceLine).statements =
      .ok text := by decide +kernel
  have outlined' : shown (Reading.ofSource sampleLimits.parsing choiceLines).statements =
      .ok text := by decide +kernel
  exact ⟨clean, clean', bounded, bounded', outlined, outlined',
    same_program_of_outline sampleLimits clean clean' bounded bounded' outlined outlined'⟩

end TreeWalker
