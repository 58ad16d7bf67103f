import Mathlib.Data.List.Forall2
import TreeWalker.Proofs.Grammar.Derivation

/-!
# Spellings and canonical trees

A tree of the language can be written back.  Its spelling says of each token
whether the tree holds it, which value it stands for or, if the tree knows
nothing about it, of which kind it is.

A tree is canonical if its spelling has no other reading: operands bind as
tightly as their place asks for, a looser one is grouped, a variable is declared
in a body only, and an `else` cannot belong to an `if` further inside.  How
tightly an operator binds is said here once more, by a number, and not taken
from the levels of the parser.

The derivations without stray tokens are the canonical trees with their
spellings.  How deep the rules of the grammar are nested in one is read off the tree.
-/

namespace TreeWalker

/-- Induction on trees, in which what is known of the statements of a block is
known of each of them. -/
@[elab_as_elim]
theorem Node.inductionOn {motive : Node → Prop} (node : Node) (absent : motive .absent)
    (literal : ∀ value, motive (.literal value))
    (grouping : ∀ inner, motive inner → motive (.grouping inner))
    (unary : ∀ operator operand, motive operand → motive (.unary operator operand))
    (binary : ∀ left operator right, motive left → motive right →
      motive (.binary left operator right))
    (logical : ∀ left operator right, motive left → motive right →
      motive (.logical left operator right))
    (reference : ∀ name, motive (.reference name))
    (assign : ∀ name value, motive value → motive (.assign name value))
    (exprStmt : ∀ expr, motive expr → motive (.exprStmt expr))
    (printStmt : ∀ expr, motive expr → motive (.printStmt expr))
    (varStmt : ∀ name initializer, motive initializer → motive (.varStmt name initializer))
    (blockStmt : ∀ body, (∀ node ∈ body, motive node) → motive (.blockStmt body))
    (ifStmt : ∀ condition thenBranch elseBranch, motive condition → motive thenBranch →
      motive elseBranch → motive (.ifStmt condition thenBranch elseBranch))
    (whileStmt : ∀ condition body, motive condition → motive body →
      motive (.whileStmt condition body)) : motive node := by
  refine @Node.rec motive (fun nodes => ∀ node ∈ nodes, motive node) absent literal grouping unary
    binary logical reference assign exprStmt printStmt varStmt blockStmt ifStmt whileStmt ?_ ?_ node
  · exact fun _ member => absurd member List.not_mem_nil
  · intro first nodes firstHolds othersHold node member
    rcases List.mem_cons.mp member with rfl | member
    · exact firstHolds
    · exact othersHold node member

/-! ## Spellings -/

/-- What a tree says about a token of its spelling. -/
inductive Mark where
  | fixed (kind : TokenKind)
  | held (token : Token)
  | constant (value : Value)

/-- A token fits a mark.  A whole number of unbounded size has no token. -/
def Mark.Fits : Mark → Token → Prop
  | .fixed kind, token => token.kind = kind
  | .held same, token => token = same
  | .constant .nil, token => token.kind = .keyword .kwNil
  | .constant (.boolean true), token => token.kind = .keyword .kwTrue
  | .constant (.boolean false), token => token.kind = .keyword .kwFalse
  | .constant (.number x), token => token.kind = .number ∧ token.literal = .number x
  | .constant (.string text), token => token.kind = .string ∧ token.literal = .string text
  | .constant (.integer _), _ => False

namespace Node

mutual

/-- Spelling of a tree. -/
def spelling : Node → List Mark
  | absent => []
  | literal value => [.constant value]
  | grouping inner =>
    .fixed (.symbol .leftParen) :: (inner.spelling ++ [.fixed (.symbol .rightParen)])
  | unary operator operand => .held operator :: operand.spelling
  | binary left operator right | logical left operator right =>
    left.spelling ++ .held operator :: right.spelling
  | reference name => [.held name]
  | assign name value => .held name :: .fixed (.symbol .equal) :: value.spelling
  | exprStmt expr => expr.spelling ++ [.fixed (.symbol .semicolon)]
  | printStmt expr =>
    .fixed (.keyword .kwPrint) :: (expr.spelling ++ [.fixed (.symbol .semicolon)])
  | varStmt name absent => [.fixed (.keyword .kwVar), .held name, .fixed (.symbol .semicolon)]
  | varStmt name initializer =>
    .fixed (.keyword .kwVar) :: .held name :: .fixed (.symbol .equal) ::
      (initializer.spelling ++ [.fixed (.symbol .semicolon)])
  | blockStmt body =>
    .fixed (.symbol .leftBrace) :: (spellingOfAll body ++ [.fixed (.symbol .rightBrace)])
  | ifStmt condition thenBranch absent =>
    .fixed (.keyword .kwIf) :: .fixed (.symbol .leftParen) ::
      (condition.spelling ++ .fixed (.symbol .rightParen) :: thenBranch.spelling)
  | ifStmt condition thenBranch elseBranch =>
    .fixed (.keyword .kwIf) :: .fixed (.symbol .leftParen) ::
      (condition.spelling ++ .fixed (.symbol .rightParen) ::
        (thenBranch.spelling ++ .fixed (.keyword .kwElse) :: elseBranch.spelling))
  | whileStmt condition body =>
    .fixed (.keyword .kwWhile) :: .fixed (.symbol .leftParen) ::
      (condition.spelling ++ .fixed (.symbol .rightParen) :: body.spelling)

/-- Spelling of several trees, one after the other. -/
def spellingOfAll : List Node → List Mark
  | [] => []
  | node :: nodes => node.spelling ++ spellingOfAll nodes

end

/-! ## Canonical trees -/

/-- How tightly a logical operator binds. -/
def logicalStrength? : TokenKind → Option Nat
  | .keyword .kwOr => some 1
  | .keyword .kwAnd => some 2
  | _ => none

/-- How tightly any other binary operator binds: an equality, a comparison, a sum
or a product. -/
def binaryStrength? : TokenKind → Option Nat
  | .symbol .bangEqual | .symbol .equalEqual => some 3
  | .symbol .greater | .symbol .greaterEqual | .symbol .less | .symbol .lessEqual => some 4
  | .symbol .minus | .symbol .plus => some 5
  | .symbol .slash | .symbol .star => some 6
  | _ => none

/-- How tightly an expression binds: an assignment binds loosest, then come the
binary and the unary operations, and the primary expressions bind tightest. -/
def strength : Node → Nat
  | assign _ _ => 0
  | logical _ operator _ => (logicalStrength? operator.kind).getD 0
  | binary _ operator _ => (binaryStrength? operator.kind).getD 0
  | unary _ _ => 7
  | _ => 8

/-- The left operand of an operator binds at least as tightly as the operator,
the right operand more tightly. -/
def Binds (strength : Option Nat) (left right : Node) : Prop :=
  ∃ s, strength = some s ∧ s ≤ left.strength ∧ s < right.strength

/-- A canonical expression. -/
def IsExpression : Node → Prop
  | literal _ => True
  | grouping inner => inner.IsExpression
  | unary operator operand =>
    (operator.kind = .symbol .bang ∨ operator.kind = .symbol .minus) ∧
      7 ≤ operand.strength ∧ operand.IsExpression
  | binary left operator right =>
    Binds (binaryStrength? operator.kind) left right ∧ left.IsExpression ∧ right.IsExpression
  | logical left operator right =>
    Binds (logicalStrength? operator.kind) left right ∧ left.IsExpression ∧ right.IsExpression
  | reference name => name.kind = .identifier
  | assign name value => name.kind = .identifier ∧ value.IsExpression
  | _ => False

/-- A canonical declaration of a variable. -/
def IsVariable : Node → Prop
  | varStmt name initializer =>
    name.kind = .identifier ∧ (initializer = .absent ∨ initializer.IsExpression)
  | _ => False

mutual

/-- A canonical statement. -/
def IsStatement : Node → Prop
  | exprStmt expr | printStmt expr => expr.IsExpression
  | ifStmt condition thenBranch absent => condition.IsExpression ∧ thenBranch.IsStatement
  | ifStmt condition thenBranch elseBranch =>
    condition.IsExpression ∧ thenBranch.IsStatement ∧ thenBranch.endsOpen = false ∧
      elseBranch.IsStatement
  | whileStmt condition body => condition.IsExpression ∧ body.IsStatement
  | blockStmt body => AreCanonical body
  | _ => False

/-- Canonical statements and declarations, as they stand in a body. -/
def AreCanonical : List Node → Prop
  | [] => True
  | node :: nodes => (node.IsVariable ∨ node.IsStatement) ∧ AreCanonical nodes

end

/-! ## Depth of nesting -/

mutual

/-- Levels of the grammar's rules that a tree goes through where it is nested
deepest.  Those of an expression are counted from the rule for operands, which stands
one level inside the rule for expressions. -/
def nesting : Node → Nat
  | absent => 0
  | literal _ | reference _ => 1
  | grouping inner => inner.nesting + 2
  | unary _ operand => operand.nesting + 1
  | binary left _ right | logical left _ right => max left.nesting right.nesting
  | assign _ value => value.nesting + 1
  | exprStmt expr | printStmt expr => expr.nesting + 2
  | varStmt _ absent => 0
  | varStmt _ initializer => initializer.nesting + 1
  | blockStmt body => nestingOfAll body + 1
  | ifStmt condition thenBranch elseBranch =>
    max (condition.nesting + 1) (max thenBranch.nesting elseBranch.nesting) + 1
  | whileStmt condition body => max (condition.nesting + 1) body.nesting + 1

/-- Levels of the tree among several that is nested deepest. -/
def nestingOfAll : List Node → Nat
  | [] => 0
  | node :: nodes => max node.nesting (nestingOfAll nodes)

end

end Node

/-- The statements spell the tokens. -/
def Spells (statements : List Node) (tokens : List Token) : Prop :=
  List.Forall₂ Mark.Fits (Node.spellingOfAll statements) tokens

/-- Numbers carry a number, and strings a text. -/
def Token.Carries (token : Token) : Prop :=
  (token.kind = .number → ∃ x, token.literal = .number x) ∧
    (token.kind = .string → ∃ text, token.literal = .string text)

namespace Grammar

/-- A list of marks fits a word. -/
abbrev Fit (marks : List Mark) (word : List Token) : Prop :=
  List.Forall₂ Mark.Fits marks word

theorem fit_cons_iff {mark : Mark} {marks : List Mark} {word : List Token} :
    Fit (mark :: marks) word ↔
      ∃ token rest, mark.Fits token ∧ Fit marks rest ∧ word = token :: rest :=
  List.forall₂_cons_left_iff

theorem fit_append_iff {marks marks' : List Mark} {word : List Token} :
    Fit (marks ++ marks') word ↔
      ∃ front back, word = front ++ back ∧ Fit marks front ∧ Fit marks' back := by
  induction marks generalizing word with
  | nil => simp
  | cons mark marks inductionHypothesis =>
      simp only [List.cons_append, List.forall₂_cons_left_iff, inductionHypothesis]
      constructor
      · rintro ⟨token, _, fits, ⟨front, back, rfl, first, second⟩, rfl⟩
        exact ⟨token :: front, back, rfl, ⟨token, front, fits, first, rfl⟩, second⟩
      · rintro ⟨_, back, rfl, ⟨token, front, fits, first, rfl⟩, second⟩
        exact ⟨token, front ++ back, fits, ⟨front, back, rfl, first, second⟩, rfl⟩

theorem Fit.append {marks marks' : List Mark} {word word' : List Token} (first : Fit marks word)
    (second : Fit marks' word') : Fit (marks ++ marks') (word ++ word') :=
  fit_append_iff.mpr ⟨word, word', rfl, first, second⟩

theorem literalValue?_of_fits {value : Value} {token : Token}
    (fits : (Mark.constant value).Fits token) : literalValue? token = some value := by
  cases value with
  | nil => simp_all [Mark.Fits, literalValue?]
  | boolean b => cases b <;> simp_all [Mark.Fits, literalValue?]
  | number x => simp_all [Mark.Fits, literalValue?]
  | string text => simp_all [Mark.Fits, literalValue?]
  | integer n => exact fits.elim

theorem fits_of_literalValue? {value : Value} {token : Token} (carries : token.Carries)
    (constant : literalValue? token = some value) : (Mark.constant value).Fits token := by
  rcases carries with ⟨number, string⟩
  unfold literalValue? at constant
  split at constant
  · cases constant
    assumption
  · cases constant
    assumption
  · cases constant
    assumption
  · rename_i isNumber
    rcases number isNumber with ⟨x, carried⟩
    cases constant
    rw [carried]
    exact ⟨isNumber, carried⟩
  · rename_i isString
    rcases string isString with ⟨text, carried⟩
    cases constant
    rw [carried]
    exact ⟨isString, carried⟩
  · cases constant

end Grammar

end TreeWalker
