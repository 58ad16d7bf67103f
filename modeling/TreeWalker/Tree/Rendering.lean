import TreeWalker.Tree.Node

/-!
# Renderings of syntax trees

An expression is written with its operators in front, in parentheses, or in
reverse Polish order, in which groupings vanish.  Statements are written as an
outline, one line a statement, indented under the statement that holds them.

Renderings walk down the tree, and each of them is given the number of levels
that it may go down.  A node takes one of them, and so does a statement of an outline;
an operation in parentheses may take more, and so may the text of a value.  Faults are
met in reading order, and the first one is the result.
-/

namespace TreeWalker

/-- Why a tree has no rendering. -/
inductive RenderFault where
  | misplaced (node : Misplaced)
  | overNested
deriving DecidableEq, Repr

/-- A text, or the reason why there is none. -/
abbrev Rendered :=
  Except RenderFault String

namespace Node

/-- An operator in front of its operands, in parentheses. -/
def parenthesized (operator : String) (operands : List String) : String :=
  "(" ++ String.intercalate " " (operator :: operands) ++ ")"

/-- Text of a value, which takes some levels of its own. -/
def valueText (toll : Value → Nat) (levels : Nat) (value : Value) : Rendered :=
  if levels < toll value then .error .overNested else pure value.display

/-- Expression with its operators in front, e.g. `(* (- 123) (group 45.67))`.  The operands
stand a stride below their operation. -/
def operatorFirst (stride : Nat) (toll : Value → Nat) : (levels : Nat) → Node → Rendered
  | 0, _ => .error .overNested
  | levels + 1, literal value => valueText toll levels value
  | levels + 1, grouping inner => do
    let inner ← inner.operatorFirst stride toll (levels + 1 - stride)
    pure (parenthesized "group" [inner])
  | levels + 1, unary operator operand => do
    let operand ← operand.operatorFirst stride toll (levels + 1 - stride)
    pure (parenthesized operator.lexeme [operand])
  | levels + 1, binary left operator right | levels + 1, logical left operator right => do
    let left ← left.operatorFirst stride toll (levels + 1 - stride)
    let right ← right.operatorFirst stride toll (levels + 1 - stride)
    pure (parenthesized operator.lexeme [left, right])
  | _ + 1, reference name => pure name.lexeme
  | levels + 1, assign name value => do
    let value ← value.operatorFirst stride toll levels
    pure (parenthesized "=" [name.lexeme, value])
  | _ + 1, other => .error (.misplaced (.expression other.kindName))

/-- Expression in reverse Polish order, e.g. `1 2 + 4 3 - *`. -/
def reversePolish (toll : Value → Nat) : (levels : Nat) → Node → Rendered
  | 0, _ => .error .overNested
  | levels + 1, literal value => valueText toll levels value
  | levels + 1, grouping inner => inner.reversePolish toll levels
  | levels + 1, unary operator operand => do
    let operand ← operand.reversePolish toll levels
    pure (operand ++ " " ++ operator.lexeme)
  | levels + 1, binary left operator right | levels + 1, logical left operator right => do
    let left ← left.reversePolish toll levels
    let right ← right.reversePolish toll levels
    pure (left ++ " " ++ right ++ " " ++ operator.lexeme)
  | _ + 1, reference name => pure name.lexeme
  | levels + 1, assign name value => do
    let value ← value.reversePolish toll levels
    pure (value ++ " " ++ name.lexeme ++ " =")
  | _ + 1, other => .error (.misplaced (.expression other.kindName))

/-- Two blanks for each step of indentation, none for a negative number of
steps. -/
def padding (indent : Int) : String :=
  String.ofList (List.replicate (2 * indent.toNat) ' ')

/-- Renderings of a list of statements, one after the other. -/
def concatenated (render : Node → Rendered) : List Node → Rendered
  | [] => pure ""
  | node :: nodes => do
    let first ← render node
    let others ← concatenated render nodes
    pure (first ++ others)

/-- Outline of a statement at the given indentation. -/
def outline (stride : Nat) (toll : Value → Nat) : (levels : Nat) → (indent : Int) → Node → Rendered
  | 0, _, _ => .error .overNested
  | levels + 1, indent, node =>
    let pad := padding indent
    match node with
    | exprStmt expr => do
      let expr ← expr.operatorFirst stride toll levels
      pure (pad ++ "Expression " ++ expr ++ "\n")
    | printStmt expr => do
      let expr ← expr.operatorFirst stride toll levels
      pure (pad ++ "Print " ++ expr ++ "\n")
    | varStmt name absent => pure (pad ++ "Var " ++ name.lexeme ++ "\n")
    | varStmt name initializer => do
      let initializer ← initializer.operatorFirst stride toll levels
      pure (pad ++ "Var " ++ name.lexeme ++ " = " ++ initializer ++ "\n")
    | blockStmt body => do
      let body ← concatenated (outline stride toll levels (indent + 1)) body
      pure (pad ++ "Block\n" ++ body)
    | ifStmt condition thenBranch elseBranch => do
      let condition ← condition.operatorFirst stride toll levels
      let thenBranch ← thenBranch.outline stride toll levels (indent + 1)
      let elseBranch ← match elseBranch with
        | absent => pure ""
        | present => do
          let branch ← present.outline stride toll levels (indent + 1)
          pure (pad ++ "Else\n" ++ branch)
      pure (pad ++ "If " ++ condition ++ "\n" ++ thenBranch ++ elseBranch)
    | whileStmt condition body => do
      let condition ← condition.operatorFirst stride toll levels
      let body ← body.outline stride toll levels (indent + 1)
      pure (pad ++ "While " ++ condition ++ "\n" ++ body)
    | other => .error (.misplaced (.statement other.kindName))

end Node

end TreeWalker
