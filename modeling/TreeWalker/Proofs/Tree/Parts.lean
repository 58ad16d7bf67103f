import TreeWalker.Proofs.Grammar.Shape
import TreeWalker.Proofs.Tree.Names

/-!
# The parts of a tree

A tree has the trees it is made of as its parts, and their parts in turn.  What a
statement declares in the scope it runs in does not depend on the blocks in it, since a
block has a scope of its own.  A parser lets a declaration stand at the top of a program
or in a block only.  So of all the statements that are parts of a program, those that are
no declarations themselves declare nothing where they run.
-/

namespace TreeWalker

variable {limit : Nat}

namespace Node

/-- A tree is part of another one, at any depth, or the same. -/
inductive IsPartOf (part : Node) : Node → Prop where
  | whole : IsPartOf part part
  | inside {child node : Node} (member : .tree child ∈ node.fragments)
    (inner : IsPartOf part child) : IsPartOf part node

/-- A tree that declares no variable in the scope it runs in. -/
def DeclaresNothing : Node → Prop
  | varStmt _ _ => False
  | ifStmt _ thenBranch elseBranch => thenBranch.DeclaresNothing ∧ elseBranch.DeclaresNothing
  | whileStmt _ body => body.DeclaresNothing
  | _ => True

/-- A tree in which declarations stand in blocks only. -/
def IsPlaced (root : Node) : Prop :=
  ∀ part : Node, part.IsPartOf root →
    (∃ name initializer, part = varStmt name initializer) ∨ part.DeclaresNothing

variable {node part child : Node}

/-- A part of a tree is the tree itself or a part of one of its children. -/
theorem IsPartOf.cases_iff :
    part.IsPartOf node ↔ part = node ∨ ∃ child, .tree child ∈ node.fragments ∧
      part.IsPartOf child := by
  constructor
  · intro isPart
    cases isPart with
    | whole => exact .inl rfl
    | inside member inner => exact .inr ⟨_, member, inner⟩
  · rintro (rfl | ⟨child, member, inner⟩)
    · exact .whole
    · exact .inside member inner

/-- Expressions have only expressions as their parts. -/
theorem FormsExpression.of_isPartOf (forms : node.FormsExpression) (isPart : part.IsPartOf node) :
    part.FormsExpression := by
  induction isPart with
  | whole => exact forms
  | @inside child node member _ inductionHypothesis =>
      refine inductionHypothesis ?_
      cases node <;> simp [FormsExpression, fragments] at forms member
      case grouping | unary | assign => exact member ▸ forms
      case binary | logical =>
        rcases member with rfl | rfl
        · exact forms.1
        · exact forms.2

theorem FormsExpression.declaresNothing (forms : node.FormsExpression) :
    node.DeclaresNothing := by
  cases node <;> first | exact trivial | cases forms

theorem FormsExpression.isPlaced (forms : node.FormsExpression) : node.IsPlaced :=
  fun _ isPart => .inr (forms.of_isPartOf isPart).declaresNothing

/-- An expression gives another value to a variable only where it is an assignment, or has
one as a part. -/
theorem exists_assign_of_mem_targets {target : String} (member : target ∈ node.targets) :
    ∃ name value, name.lexeme = target ∧ (assign name value).IsPartOf node := by
  induction node using Node.targets.induct with
  | case1 inner inductionHypothesis | case2 _ inner inductionHypothesis =>
      obtain ⟨name, value, same, isPart⟩ := inductionHypothesis member
      exact ⟨name, value, same, .inside (by simp [fragments]) isPart⟩
  | case3 left _ right lefts rights | case4 left _ right lefts rights =>
      rcases List.mem_append.mp member with member | member
      · obtain ⟨name, value, same, isPart⟩ := lefts member
        exact ⟨name, value, same, .inside (by simp [fragments]) isPart⟩
      · obtain ⟨name, value, same, isPart⟩ := rights member
        exact ⟨name, value, same, .inside (by simp [fragments]) isPart⟩
  | case5 here assigned inductionHypothesis =>
      rcases List.mem_cons.mp member with rfl | member
      · exact ⟨here, assigned, rfl, .whole⟩
      · obtain ⟨name, value, same, isPart⟩ := inductionHypothesis member
        exact ⟨name, value, same, .inside (by simp [fragments]) isPart⟩
  | case6 other => simp_all [targets]

/-- A tree is placed if it declares nothing and its children are placed. -/
theorem IsPlaced.of_children (declaresNothing : node.DeclaresNothing)
    (children : ∀ child, .tree child ∈ node.fragments → child.IsPlaced) : node.IsPlaced := by
  intro part isPart
  rcases IsPartOf.cases_iff.mp isPart with rfl | ⟨child, member, inner⟩
  · exact .inr declaresNothing
  · exact children child member part inner

theorem isPlaced_absent : absent.IsPlaced :=
  .of_children trivial fun _ member => absurd member List.not_mem_nil

end Node

namespace Grammar

open Node (IsPlaced DeclaresNothing)

/-- A branch that may be missing is placed and declares nothing if it does so whenever it
is there. -/
theorem isPlaced_of_optional {node : Node}
    (branch : node = .absent ∨ node.IsPlaced ∧ node.DeclaresNothing) :
    node.IsPlaced ∧ node.DeclaresNothing := by
  rcases branch with rfl | placed
  · exact ⟨Node.isPlaced_absent, trivial⟩
  · exact placed

/-- Declarations are placed in blocks by every rule of the grammar. -/
theorem formation_isPlaced :
    Formation (fun node => node.IsPlaced ∧ node.DeclaresNothing) IsPlaced where
  exprStmt shaped := ⟨.of_children trivial (by simpa [Node.fragments] using shaped.isPlaced),
    trivial⟩
  printStmt shaped := ⟨.of_children trivial (by simpa [Node.fragments] using shaped.isPlaced),
    trivial⟩
  ifStmt condition thenBranch elseBranch := by
    have otherwise := isPlaced_of_optional elseBranch
    refine ⟨.of_children ⟨thenBranch.2, otherwise.2⟩ ?_, thenBranch.2, otherwise.2⟩
    simpa [Node.fragments] using ⟨condition.isPlaced, thenBranch.1, otherwise.1⟩
  whileStmt condition body := by
    refine ⟨.of_children body.2 ?_, body.2⟩
    simpa [Node.fragments] using ⟨condition.isPlaced, body.1⟩
  blockStmt body :=
    ⟨.of_children trivial (by simpa [Node.fragments] using body), trivial⟩
  varStmt := by
    intro name initializer shaped part isPart
    rcases Node.IsPartOf.cases_iff.mp isPart with rfl | ⟨child, member, inner⟩
    · exact .inl ⟨name, initializer, rfl⟩
    · have isInitializer : child = initializer := by simpa [Node.fragments] using member
      subst isInitializer
      rcases shaped with rfl | shaped
      · exact Node.isPlaced_absent part inner
      · exact shaped.isPlaced part inner
  declared := And.left

/-- In a program that is parsed, also with faults, a statement that is no declaration
declares nothing in the scope it runs in. -/
theorem declaresNothing_of_parsed {tokens : List Token} {root part : Node}
    (member : root ∈ (Parsed.ofProgram limit tokens).result) (isPart : part.IsPartOf root) :
    (∃ name initializer, part = .varStmt name initializer) ∨ part.DeclaresNothing := by
  unfold Parsed.ofProgram parseWith at member
  split at member
  · next parsed =>
      have placed := Yields.program formation_isPlaced limit _ _ _ parsed
      exact placed root member part isPart
  · exact absurd member List.not_mem_nil

end Grammar

end TreeWalker
