import TreeWalker.Evaluation.Machine

/-!
# Values of expressions

Operands are evaluated from left to right.  A logical operation evaluates its
right operand only if the left one does not decide it, and its value is that of
an operand.
-/

namespace TreeWalker.Evaluation

/-- Value of an expression that is nested at most so many levels deep. -/
def evaluate : (levels : Nat) → Node → Run Value
  | 0, _ => throw .overNested
  | levels + 1, node =>
    match node with
    | .literal value => return value
    | .grouping inner => evaluate levels inner
    | .unary operator operand => do
      let operand ← evaluate levels operand
      atToken operator (applyUnary operator operand)
    | .binary left operator right => do
      let left ← evaluate levels left
      let right ← evaluate levels right
      atToken operator (applyBinary operator left right)
    | .logical left operator right => do
      let left ← evaluate levels left
      if decides operator left then return left else evaluate levels right
    | .reference name => readVariable name
    | .assign name value => do
      let value ← evaluate levels value
      writeVariable name value
      return value
    | other => throw (.misplaced (.expression other.kindName))

end TreeWalker.Evaluation
