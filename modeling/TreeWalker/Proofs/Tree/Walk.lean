import Mathlib.Logic.Function.Iterate
import TreeWalker.Proofs.Tree.LeadingLine
import TreeWalker.Proofs.Tree.Parts

/-!
# Walks over trees

A walk in search of a token needs no recursion.  It keeps what it has not looked at on a
stack, and in each round the top of the stack gives way to what it is made of, until the
top is a token or nothing is left.  Whatever is on the stack, values and missing nodes
among it, a round neither adds nor drops a token of what is pending, nor does it change
their order, and it makes what is pending lighter.  So a walk over a tree of any shape
ends, with the first of the tokens that a recursive walk collects.
-/

namespace TreeWalker.Node

/-! ## Items -/

/-- What may lie on the stack of a walk: the fields of nodes, and the nodes in them. -/
inductive Item where
  | value (value : Value)
  | token (token : Token)
  | tree (node : Node)
  | row (nodes : List Node)

/-- The fields of a node, in their order. -/
def fields : Node → List Item
  | absent => []
  | literal value => [.value value]
  | grouping inner => [.tree inner]
  | unary operator operand => [.token operator, .tree operand]
  | binary left operator right | logical left operator right =>
    [.tree left, .token operator, .tree right]
  | reference name => [.token name]
  | assign name value => [.token name, .tree value]
  | exprStmt expr | printStmt expr => [.tree expr]
  | varStmt name initializer => [.token name, .tree initializer]
  | blockStmt body => [.row body]
  | ifStmt condition thenBranch elseBranch =>
    [.tree condition, .tree thenBranch, .tree elseBranch]
  | whileStmt condition body => [.tree condition, .tree body]

namespace Item

/-- What an item gives way to. -/
def children : Item → List Item
  | value _ | token _ => []
  | tree node => node.fields
  | row nodes => nodes.map tree

/-- Tokens held in an item, in reading order. -/
def tokens : Item → List Token
  | value _ => []
  | token single => [single]
  | tree node => node.tokens
  | row nodes => tokensOfAll nodes

/-- A bound of the rounds that a walk spends on an item. -/
def weight : Item → Nat
  | value _ | token _ => 1
  -- A size is doubled, so that the row of a block fits between the block and its statements.
  | tree node => 2 * node.size
  | row nodes => 1 + 2 * sizeOfAll nodes

/-- Weight of several items. -/
def weightOfAll : List Item → Nat
  | [] => 0
  | item :: items => item.weight + weightOfAll items

theorem weightOfAll_append (items others : List Item) :
    weightOfAll (items ++ others) = weightOfAll items + weightOfAll others := by
  induction items with
  | nil => exact (Nat.zero_add _).symm
  | cons item items inductionHypothesis =>
      rw [List.cons_append, weightOfAll, weightOfAll, inductionHypothesis, Nat.add_assoc]

theorem weightOfAll_map_tree (nodes : List Node) :
    weightOfAll (nodes.map tree) = 2 * sizeOfAll nodes := by
  induction nodes with
  | nil => rfl
  | cons node nodes inductionHypothesis =>
      rw [List.map_cons, weightOfAll, inductionHypothesis, weight, sizeOfAll, Nat.mul_add]

theorem flatMap_tokens_map_tree (nodes : List Node) :
    (nodes.map tree).flatMap tokens = tokensOfAll nodes := by
  rw [List.flatMap_map, tokensOfAll_eq_flatMap]
  rfl

/-- The fields of a node hold its tokens. -/
theorem flatMap_tokens_fields (node : Node) : node.fields.flatMap tokens = node.tokens := by
  cases node <;> simp [fields, tokens, Node.tokens]

/-- An item that is no token holds what it gives way to. -/
theorem flatMap_tokens_children {item : Item} (other : ∀ single, item ≠ token single) :
    item.children.flatMap tokens = item.tokens := by
  cases item with
  | value => rfl
  | token single => exact absurd rfl (other single)
  | tree node => exact flatMap_tokens_fields node
  | row nodes => exact flatMap_tokens_map_tree nodes

theorem weightOfAll_fields (node : Node) : weightOfAll node.fields < 2 * node.size := by
  cases node <;> simp [fields, weightOfAll, weight, size] <;> omega

/-- An item is heavier than what it gives way to. -/
theorem weightOfAll_children (item : Item) : weightOfAll item.children < item.weight := by
  cases item with
  | value | token => exact Nat.one_pos
  | tree node => exact weightOfAll_fields node
  | row nodes =>
      rw [children, weightOfAll_map_tree, weight]
      omega

end Item

/-! ## Rounds -/

/-- Items are put on a stack one after the other, the last of them on top. -/
def push (items stack : List Item) : List Item :=
  items.foldl (fun stack item => item :: stack) stack

/-- Items that are put on a stack from the last to the first lie on it in their order. -/
theorem push_reverse (items stack : List Item) : push items.reverse stack = items ++ stack := by
  rw [push, List.foldl_reverse, List.foldr_cons_eq_append, List.map_id']

/-- How far a walk has come: items are pending on its stack, the top of it first, or it
has ended, with a token if it has met one. -/
inductive Walk where
  | pending (stack : List Item)
  | ended (met : Option Token)

namespace Walk

/-- One round: a token on top of the stack ends the walk, and anything else gives way to
what it is made of. -/
def round : Walk → Walk
  | pending [] => ended none
  | pending (.token single :: _) => ended (some single)
  | pending (item :: stack) => pending (push item.children.reverse stack)
  | ended met => ended met

/-- The token that a walk meets: the first that is pending. -/
def first : Walk → Option Token
  | pending stack => (stack.flatMap Item.tokens).head?
  | ended met => met

/-- A bound of the rounds that are left. -/
def weight : Walk → Nat
  | pending stack => 1 + Item.weightOfAll stack
  | ended _ => 0

/-- An item that is no token gives way. -/
theorem round_of_other {item : Item} (other : ∀ single, item ≠ .token single)
    (stack : List Item) : (pending (item :: stack)).round = pending (item.children ++ stack) := by
  rw [← push_reverse]
  cases item with
  | token single => exact absurd rfl (other single)
  | value | tree | row => rfl

/-- In a round, a walk is over, comes to its end, or goes on from what an item gives way
to. -/
theorem round_cases (walk : Walk) :
    (∃ met, walk = ended met) ∨ walk = pending [] ∨
      (∃ single stack, walk = pending (.token single :: stack)) ∨
      ∃ item stack, walk = pending (item :: stack) ∧ (∀ single, item ≠ .token single) ∧
        walk.round = pending (item.children ++ stack) := by
  cases walk with
  | ended met => exact .inl ⟨met, rfl⟩
  | pending stack =>
      cases stack with
      | nil => exact .inr (.inl rfl)
      | cons item stack =>
          cases item with
          | token single => exact .inr (.inr (.inl ⟨single, stack, rfl⟩))
          | value | tree | row =>
              refine .inr (.inr (.inr ⟨_, stack, rfl, ?_, round_of_other ?_ stack⟩)) <;>
                exact fun _ => Item.noConfusion

/-- A round leaves the first pending token the first. -/
theorem first_round (walk : Walk) : walk.round.first = walk.first := by
  rcases walk.round_cases with
    ⟨met, rfl⟩ | rfl | ⟨single, stack, rfl⟩ | ⟨item, stack, rfl, other, goesOn⟩
  · rfl
  · rfl
  · rfl
  · rw [goesOn, first, first, List.flatMap_append, Item.flatMap_tokens_children other,
      List.flatMap_cons]

/-- A round makes what is pending lighter. -/
theorem weight_round (walk : Walk) : walk.round.weight ≤ walk.weight - 1 := by
  rcases walk.round_cases with
    ⟨met, rfl⟩ | rfl | ⟨single, stack, rfl⟩ | ⟨item, stack, rfl, other, goesOn⟩
  · exact Nat.le_refl 0
  · exact Nat.le_refl 0
  · exact Nat.zero_le _
  · have lighter := item.weightOfAll_children
    rw [goesOn, weight, weight, Item.weightOfAll_append, Item.weightOfAll]
    omega

theorem eq_ended_of_weight {walk : Walk} (weightless : walk.weight = 0) :
    walk = ended walk.first := by
  cases walk with
  | pending stack =>
      rw [weight] at weightless
      omega
  | ended met => rfl

theorem first_rounds (walk : Walk) (rounds : Nat) : (round^[rounds] walk).first = walk.first := by
  induction rounds with
  | zero => rfl
  | succ rounds inductionHypothesis =>
      rw [Function.iterate_succ_apply', first_round, inductionHypothesis]

theorem weight_rounds (walk : Walk) (rounds : Nat) :
    (round^[rounds] walk).weight ≤ walk.weight - rounds := by
  induction rounds with
  | zero => exact Nat.le_refl _
  | succ rounds inductionHypothesis =>
      have lighter := (round^[rounds] walk).weight_round
      rw [Function.iterate_succ_apply']
      omega

/-- After as many rounds as it weighs, a walk has ended with the first pending token. -/
theorem rounds_eq_ended {walk : Walk} {rounds : Nat} (enough : walk.weight ≤ rounds) :
    round^[rounds] walk = ended walk.first := by
  have weightless : (round^[rounds] walk).weight = 0 := by
    have lighter := walk.weight_rounds rounds
    omega
  rw [eq_ended_of_weight weightless, first_rounds]

end Walk

/-! ## Trees -/

/-- A token is held in a tree: it is a token of one of its parts. -/
def Holds (node : Node) (single : Token) : Prop :=
  ∃ part : Node, part.IsPartOf node ∧ .token single ∈ part.fragments

theorem Holds.of_child {node child : Node} {single : Token}
    (member : .tree child ∈ node.fragments) (holds : child.Holds single) : node.Holds single := by
  obtain ⟨part, isPart, token⟩ := holds
  exact ⟨part, .inside member isPart, token⟩

/-- The tokens of a tree are its own and those of its children. -/
theorem mem_tokens_iff {node : Node} {single : Token} :
    single ∈ node.tokens ↔ .token single ∈ node.fragments ∨
      ∃ child, .tree child ∈ node.fragments ∧ single ∈ child.tokens := by
  rw [← flatMap_tokens_fragments, List.mem_flatMap]
  constructor
  · rintro ⟨_ | child, member, held⟩
    · rw [List.mem_singleton.mp held]
      exact .inl member
    · exact .inr ⟨child, member, held⟩
  · rintro (member | ⟨child, member, held⟩)
    · exact ⟨_, member, List.mem_singleton_self _⟩
    · exact ⟨_, member, held⟩

theorem size_lt_of_mem_fragments {node child : Node} (member : .tree child ∈ node.fragments) :
    child.size < node.size := by
  obtain ⟨before, behind, split⟩ := List.append_of_mem member
  rw [node.size_eq_total_fragments, split, Fragment.total_append, Fragment.total_cons,
    Fragment.size]
  omega

/-- A recursive walk collects the tokens that are held in a tree, and no others. -/
theorem mem_tokens_iff_holds {node : Node} {single : Token} :
    single ∈ node.tokens ↔ node.Holds single := by
  constructor
  -- On the size, so that the hypothesis is there for any child, whatever the node is.
  · intro member
    induction size : node.size using Nat.strongRecOn generalizing node with
    | ind _ inductionHypothesis =>
        rcases mem_tokens_iff.mp member with own | ⟨child, isChild, held⟩
        · exact ⟨node, .whole, own⟩
        · have smaller := size ▸ size_lt_of_mem_fragments isChild
          exact (inductionHypothesis _ smaller held rfl).of_child isChild
  · rintro ⟨part, isPart, own⟩
    induction isPart with
    | whole => exact mem_tokens_iff.mpr (.inl own)
    | inside member _ inductionHypothesis =>
        exact mem_tokens_iff.mpr (.inr ⟨_, member, inductionHypothesis⟩)

/-- A tree of which the default is the first line, whatever it is, has no tokens. -/
theorem leadingLine_eq_default_iff {node : Node} :
    (∀ otherwise, node.leadingLine otherwise = otherwise) ↔ node.tokens = [] := by
  simp only [leadingLine_eq]
  constructor
  · intro default
    cases held : node.tokens with
    | nil => rfl
    | cons single others =>
        have impossible : single.line = single.line + 1 := by
          simpa [held] using default (single.line + 1)
        omega
  · intro empty otherwise
    rw [empty]
    rfl

/-- A walk over a tree of any shape ends within a number of rounds that its size bounds,
with the first of the tokens that a recursive walk collects from left to right.  The first
line of the tree is the line of that token, and the default exactly if no part of the tree
has a token. -/
theorem walk_meets_first (node : Node) :
    (∀ rounds, 2 * node.size < rounds →
      Walk.round^[rounds] (.pending [.tree node]) = .ended node.tokens.head?) ∧
    (∀ otherwise,
      node.leadingLine otherwise = (node.tokens.head?.map Token.line).getD otherwise) ∧
    ((∀ otherwise, node.leadingLine otherwise = otherwise) ↔ ∀ single, ¬ node.Holds single) := by
  refine ⟨fun rounds enough => ?_, node.leadingLine_eq, ?_⟩
  · have first : (Walk.pending [.tree node]).first = node.tokens.head? := by
      rw [Walk.first, List.flatMap_singleton]
      rfl
    rw [← first]
    apply Walk.rounds_eq_ended
    rw [Walk.weight, Item.weightOfAll, Item.weightOfAll, Item.weight]
    omega
  · simp only [leadingLine_eq_default_iff, ← mem_tokens_iff_holds, List.eq_nil_iff_forall_not_mem]

end TreeWalker.Node
