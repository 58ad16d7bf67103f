import TreeWalker.Grammar.Cursor
import TreeWalker.Tree.Node

/-!
# Expressions

Assignment binds loosest and associates to the right.  Below it there is a list
of levels of binary operators, from loose to tight, each of which associates to
the left; then come the unary operators, and the primary expressions bind
tightest.

The grammar is written with the rules for what is nested inside as parameters.
`expression` and `operand` tie the knot under a limit on the depth of nesting.
-/

namespace TreeWalker.Grammar

/-- Binary operators of one strength, and the node they make. -/
structure Level where
  operators : List TokenKind
  node : Node → Token → Node → Node

namespace Level

/-- Whether a token of this kind is an operator of the level. -/
def accepts (level : Level) (kind : TokenKind) : Bool :=
  level.operators.contains kind

/-- The levels, from the loosest to the tightest. -/
def all : List Level :=
  [⟨[.keyword .kwOr], .logical⟩,
    ⟨[.keyword .kwAnd], .logical⟩,
    ⟨[.symbol .bangEqual, .symbol .equalEqual], .binary⟩,
    ⟨[.symbol .greater, .symbol .greaterEqual, .symbol .less, .symbol .lessEqual], .binary⟩,
    ⟨[.symbol .minus, .symbol .plus], .binary⟩,
    ⟨[.symbol .slash, .symbol .star], .binary⟩]

end Level

/-- The rest of a chain of operands, after its left part and an operator.  Each
further operand takes a token, so the number of tokens ahead bounds the length
of the chain. -/
def chain (level : Level) (operand : Parser Node) :
    (fuel : Nat) → (left : Node) → (operator : Token) → Parser Node
  | 0, _, _ => throw .exhausted
  | fuel + 1, left, operator => do
    let right ← operand
    let grown := level.node left operator right
    match ← accept? level.accepts with
    | some next => chain level operand fuel grown next
    | none => return grown

/-- Operands joined by operators of a level, from the left. -/
def leftAssociative (level : Level) (operand : Parser Node) : Parser Node := do
  let left ← operand
  match ← accept? level.accepts with
  | some operator => chain level operand (← get).ahead.length left operator
  | none => return left

/-- Operations of several levels, from the loosest, on the given operands. -/
def operations (operand : Parser Node) : List Level → Parser Node
  | [] => operand
  | level :: tighter => leftAssociative level (operations operand tighter)

/-- Operators that stand before their operand. -/
def isUnaryOperator : TokenKind → Bool
  | .symbol .bang | .symbol .minus => true
  | _ => false

/-- The value of a literal token. -/
def literalValue? (token : Token) : Option Value :=
  match token.kind with
  | .keyword .kwFalse => some (.boolean false)
  | .keyword .kwTrue => some (.boolean true)
  | .keyword .kwNil => some .nil
  | .number | .string => some token.literal
  | _ => none

/-- A literal, a variable or an expression in parentheses. -/
def atom (nested : Parser Node) : Parser Node := do
  let token ← nextToken
  match literalValue? token with
  | some value =>
    passToken
    return .literal value
  | none =>
    match token.kind with
    | .identifier =>
      passToken
      return .reference token
    | .symbol .leftParen =>
      passToken
      let inner ← nested
      let _ ← expect (.symbol .rightParen) .groupClosing
      return .grouping inner
    | _ => reject .expression

/-- The tree of an assignment.  Only a variable can be assigned to; any other
target is reported, and the assignment comes to the target alone. -/
def assignTo (target : Node) (position : Nat) (equal : Token) (value : Node) : Parser Node :=
  match target with
  | .reference name => return .assign name value
  | _ => do
    note position equal .assignmentTarget
    return target

/-- An operation or an assignment, whose value is an assignment again. -/
def expressionOf (operand nested : Parser Node) : Parser Node := do
  let target ← operations operand Level.all
  let position := (← get).position
  match ← accept? (· == .symbol .equal) with
  | some equal =>
    let value ← nested
    assignTo target position equal value
  | none => return target

/-- A unary operation or a primary expression. -/
def operandOf (operand nested : Parser Node) : Parser Node := do
  match ← accept? isUnaryOperator with
  | some operator =>
    let operand ← operand
    return .unary operator operand
  | none => atom nested

mutual

/-- An expression, nested at most so many levels deep. -/
def expression : (levels : Nat) → Parser Node
  | 0 => throw .overNested
  | levels + 1 => expressionOf (operand levels) (expression levels)

/-- An operand, nested at most so many levels deep. -/
def operand : (levels : Nat) → Parser Node
  | 0 => throw .overNested
  | levels + 1 => operandOf (operand levels) (expression levels)

end

end TreeWalker.Grammar
