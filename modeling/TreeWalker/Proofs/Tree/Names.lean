import TreeWalker.Tree.Node

/-!
# Names in a tree

A tree names the variables that it refers to, assigns to or declares.  The names of
a tree are those of its parts and its own.
-/

namespace TreeWalker.Node

mutual

/-- Names of the variables of a tree, in reading order. -/
def names : Node → List String
  | absent | literal _ => []
  | grouping inner => inner.names
  | unary _ operand => operand.names
  | binary left _ right | logical left _ right => left.names ++ right.names
  | reference name => [name.lexeme]
  | assign name value => name.lexeme :: value.names
  | exprStmt expr | printStmt expr => expr.names
  | varStmt name initializer => name.lexeme :: initializer.names
  | blockStmt body => namesOfAll body
  | ifStmt condition thenBranch elseBranch =>
    condition.names ++ (thenBranch.names ++ elseBranch.names)
  | whileStmt condition body => condition.names ++ body.names

/-- Names of the variables of several trees, in reading order. -/
def namesOfAll : List Node → List String
  | [] => []
  | node :: nodes => node.names ++ namesOfAll nodes

end

/-- Names of the variables that an expression gives other values, in reading order. -/
def targets : Node → List String
  | grouping inner => inner.targets
  | unary _ operand => operand.targets
  | binary left _ right | logical left _ right => left.targets ++ right.targets
  | assign name value => name.lexeme :: value.targets
  | _ => []

theorem names_subset_namesOfAll {node : Node} {nodes : List Node} (member : node ∈ nodes) :
    node.names ⊆ namesOfAll nodes := by
  induction nodes with
  | nil => exact absurd member List.not_mem_nil
  | cons first nodes inductionHypothesis =>
      rcases List.mem_cons.mp member with rfl | later
      · exact List.subset_append_left _ _
      · exact List.Subset.trans (inductionHypothesis later) (List.subset_append_right _ _)

end TreeWalker.Node
