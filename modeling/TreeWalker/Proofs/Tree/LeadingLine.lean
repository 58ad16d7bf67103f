import TreeWalker.Tree.Node

/-!
# The first line of a tree

The walk over a tree with a list of pending fragments finds the first of the tokens
that the tree holds.  Where their lines rise, it is the smallest of them.
-/

namespace TreeWalker.Node

variable {nodes : List Node}

/-! ## Tokens of several trees -/

theorem tokensOfAll_eq_flatMap (nodes : List Node) : tokensOfAll nodes = nodes.flatMap tokens := by
  induction nodes with
  | nil => rfl
  | cons node nodes inductionHypothesis =>
      rw [tokensOfAll, List.flatMap_cons, inductionHypothesis]

theorem tokensOfAll_append (nodes others : List Node) :
    tokensOfAll (nodes ++ others) = tokensOfAll nodes ++ tokensOfAll others := by
  simp only [tokensOfAll_eq_flatMap, List.flatMap_append]

/-- The tokens of one of several trees are among the tokens of all, in their order. -/
theorem tokens_sublist_tokensOfAll {node : Node} (member : node ∈ nodes) :
    node.tokens.Sublist (tokensOfAll nodes) := by
  obtain ⟨before, behind, rfl⟩ := List.append_of_mem member
  rw [tokensOfAll_append, tokensOfAll]
  exact (List.sublist_append_left _ _).trans (List.sublist_append_right _ _)

/-! ## Pending fragments -/

/-- Tokens held in a fragment, in reading order. -/
def Fragment.tokens : Fragment → List Token
  | .token single => [single]
  | .tree node => node.tokens

/-- A tree holds what its fragments hold. -/
theorem flatMap_tokens_fragments (node : Node) :
    node.fragments.flatMap Fragment.tokens = node.tokens := by
  cases node with
  | blockStmt body =>
      rw [fragments, List.flatMap_map, tokens, tokensOfAll_eq_flatMap]
      rfl
  | _ => simp [fragments, Fragment.tokens, tokens]

/-- The walk finds the first token of the pending fragments. -/
theorem leadingLine?_eq (pending : List Fragment) :
    leadingLine? pending = (pending.flatMap Fragment.tokens).head?.map Token.line := by
  induction pending using leadingLine?.induct with
  | case1 => rw [leadingLine?]; rfl
  | case2 token pending => rw [leadingLine?]; rfl
  | case3 node pending inductionHypothesis =>
      rw [leadingLine?, inductionHypothesis, List.flatMap_append, flatMap_tokens_fragments]
      rfl

/-- The first line of a tree is that of the first token that it holds. -/
theorem leadingLine_eq (node : Node) (otherwise : Int) :
    node.leadingLine otherwise = (node.tokens.head?.map Token.line).getD otherwise := by
  rw [leadingLine, leadingLine?_eq, List.flatMap_singleton]
  rfl

/-- Where the lines of the tokens rise, the first line is the smallest. -/
theorem leadingLine_eq_min {node : Node}
    (rising : (node.tokens.map Token.line).Pairwise (· ≤ ·)) (otherwise : Int) :
    node.leadingLine otherwise = (node.tokens.map Token.line).min?.getD otherwise := by
  have least : (node.tokens.map Token.line).Pairwise fun line other => min line other = line :=
    rising.imp fun le => Int.min_eq_left le
  rw [leadingLine_eq, List.min?_eq_head? least, List.head?_map]

end TreeWalker.Node
