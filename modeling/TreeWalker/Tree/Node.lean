import TreeWalker.Token

/-!
# Syntax trees

Expressions and statements are nodes of one kind of tree, so that a tree made by
hand may hold a statement in the place of an expression, or nothing where a node
is required; `absent` stands for the missing node.  An absent initializer or
else branch is well formed, any other absent child is found out only when a walk
over the tree gets there.

The tokens that a tree holds come in reading order: the children of a node and
its own tokens, from left to right.  `Node.leadingLine` finds the line of the
first of them with a list of pending fragments, and so needs no stack that grows
with the depth of the tree.
-/

namespace TreeWalker

/-- A node of a syntax tree. -/
inductive Node where
  | absent
  | literal (value : Value)
  | grouping (inner : Node)
  | unary (operator : Token) (operand : Node)
  | binary (left : Node) (operator : Token) (right : Node)
  | logical (left : Node) (operator : Token) (right : Node)
  | reference (name : Token)
  | assign (name : Token) (value : Node)
  | exprStmt (expr : Node)
  | printStmt (expr : Node)
  | varStmt (name : Token) (initializer : Node)
  | blockStmt (body : List Node)
  | ifStmt (condition thenBranch elseBranch : Node)
  | whileStmt (condition body : Node)
deriving Inhabited

namespace Node

/-- Name of a node's kind. -/
def kindName : Node → String
  | absent => "NoneType"
  | literal _ => "Literal"
  | grouping _ => "Grouping"
  | unary _ _ => "Unary"
  | binary _ _ _ => "Binary"
  | logical _ _ _ => "Logical"
  | reference _ => "Variable"
  | assign _ _ => "Assign"
  | exprStmt _ => "Expression"
  | printStmt _ => "Print"
  | varStmt _ _ => "Var"
  | blockStmt _ => "Block"
  | ifStmt _ _ _ => "If"
  | whileStmt _ _ => "While"

/-- Whether a node is a statement. -/
def isStatement : Node → Bool
  | exprStmt _ | printStmt _ | varStmt _ _ | blockStmt _ | ifStmt _ _ _ | whileStmt _ _ => true
  | _ => false

/-- The expression that a statement shows or drops, if that is all it does. -/
def soleExpression? : Node → Option Node
  | exprStmt expr | printStmt expr => some expr
  | _ => none

mutual

/-- Tokens held in a tree, in reading order. -/
def tokens : Node → List Token
  | absent | literal _ => []
  | grouping inner => inner.tokens
  | unary operator operand => operator :: operand.tokens
  | binary left operator right | logical left operator right =>
    left.tokens ++ operator :: right.tokens
  | reference name => [name]
  | assign name value => name :: value.tokens
  | exprStmt expr | printStmt expr => expr.tokens
  | varStmt name initializer => name :: initializer.tokens
  | blockStmt body => tokensOfAll body
  | ifStmt condition thenBranch elseBranch =>
    condition.tokens ++ (thenBranch.tokens ++ elseBranch.tokens)
  | whileStmt condition body => condition.tokens ++ body.tokens

/-- Tokens held in several trees, in reading order. -/
def tokensOfAll : List Node → List Token
  | [] => []
  | node :: nodes => node.tokens ++ tokensOfAll nodes

end

/-- A part of a tree that is still to be walked over. -/
inductive Fragment where
  | token (token : Token)
  | tree (node : Node)

/-- The tokens and children of a node, in reading order. -/
def fragments : Node → List Fragment
  | absent | literal _ => []
  | grouping inner => [.tree inner]
  | unary operator operand => [.token operator, .tree operand]
  | binary left operator right | logical left operator right =>
    [.tree left, .token operator, .tree right]
  | reference name => [.token name]
  | assign name value => [.token name, .tree value]
  | exprStmt expr | printStmt expr => [.tree expr]
  | varStmt name initializer => [.token name, .tree initializer]
  | blockStmt body => body.map .tree
  | ifStmt condition thenBranch elseBranch =>
    [.tree condition, .tree thenBranch, .tree elseBranch]
  | whileStmt condition body => [.tree condition, .tree body]

mutual

/-- Number of nodes and tokens in a tree. -/
def size : Node → Nat
  | absent | literal _ => 1
  | grouping inner => 1 + inner.size
  | unary _ operand => 2 + operand.size
  | binary left _ right | logical left _ right => 2 + left.size + right.size
  | reference _ => 2
  | assign _ value => 2 + value.size
  | exprStmt expr | printStmt expr => 1 + expr.size
  | varStmt _ initializer => 2 + initializer.size
  | blockStmt body => 1 + sizeOfAll body
  | ifStmt condition thenBranch elseBranch =>
    1 + condition.size + thenBranch.size + elseBranch.size
  | whileStmt condition body => 1 + condition.size + body.size

/-- Number of nodes and tokens in several trees. -/
def sizeOfAll : List Node → Nat
  | [] => 0
  | node :: nodes => node.size + sizeOfAll nodes

end

namespace Fragment

/-- Number of nodes and tokens in a fragment. -/
def size : Fragment → Nat
  | token _ => 1
  | tree node => node.size

/-- Number of nodes and tokens in several fragments. -/
def total : List Fragment → Nat
  | [] => 0
  | fragment :: pending => fragment.size + total pending

@[simp]
theorem total_nil : total [] = 0 :=
  rfl

@[simp]
theorem total_cons (fragment : Fragment) (pending : List Fragment) :
    total (fragment :: pending) = fragment.size + total pending :=
  rfl

@[simp]
theorem total_append (first second : List Fragment) :
    total (first ++ second) = total first + total second := by
  induction first with
  | nil => simp
  | cons fragment first inductionHypothesis => simp [inductionHypothesis, Nat.add_assoc]

@[simp]
theorem total_map_tree (nodes : List Node) : total (nodes.map tree) = sizeOfAll nodes := by
  induction nodes with
  | nil => simp [sizeOfAll]
  | cons node nodes inductionHypothesis => simp [sizeOfAll, size, inductionHypothesis]

end Fragment

/-- A node is larger by one than its fragments together. -/
theorem size_eq_total_fragments (node : Node) :
    node.size = 1 + Fragment.total node.fragments := by
  cases node <;> simp [size, fragments, Fragment.size] <;> omega

/-- Line of the first token met in a list of fragments. -/
def leadingLine? : List Fragment → Option Int
  | [] => none
  | .token token :: _ => some token.line
  | .tree node :: pending => leadingLine? (node.fragments ++ pending)
termination_by pending => Fragment.total pending
decreasing_by
  simp only [Fragment.total_append, Fragment.total_cons, Fragment.size]
  have := node.size_eq_total_fragments
  omega

/-- Line of the first token of a tree, or the given line if it holds none. -/
def leadingLine (node : Node) (otherwise : Int) : Int :=
  (leadingLine? [.tree node]).getD otherwise

end Node

/-- A node that stands where it cannot: in the place of an expression or of a
statement, with the name of its kind. -/
inductive Misplaced where
  | expression (found : String)
  | statement (found : String)
deriving DecidableEq, Repr

namespace Misplaced

/-- Wording of a misplaced node. -/
def message : Misplaced → String
  | expression found => "Unknown expression node: " ++ found
  | statement found => "Unknown statement node: " ++ found

end Misplaced

end TreeWalker
