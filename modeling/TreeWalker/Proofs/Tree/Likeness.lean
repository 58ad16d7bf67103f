import Mathlib.Data.List.Forall2
import TreeWalker.Diagnostic
import TreeWalker.Tree.Node

/-!
# Trees that are alike

Tokens are alike if they differ in their lines only, and trees are alike if they
differ in the lines of their tokens only.  How the lines have to correspond is left
open: it may be that those of one tree are further down, or that they are the lines
of tokens at the same places in two sources.
-/

namespace TreeWalker

/-- Tokens that agree but for their lines, which correspond. -/
structure Token.Alike (lines : Int → Int → Prop) (token token' : Token) : Prop where
  kind : token.kind = token'.kind
  lexeme : token.lexeme = token'.lexeme
  literal : token.literal = token'.literal
  line : lines token.line token'.line

/-- The same report about lines that correspond. -/
structure Diagnostic.Alike (lines : Int → Int → Prop) (diagnostic diagnostic' : Diagnostic) :
    Prop where
  stage : diagnostic.stage = diagnostic'.stage
  line : lines diagnostic.line diagnostic'.line
  place : diagnostic.place = diagnostic'.place
  message : diagnostic.message = diagnostic'.message

/-- Trees of one form that hold tokens which are alike. -/
inductive Node.Alike (lines : Int → Int → Prop) : Node → Node → Prop where
  | absent : Alike lines .absent .absent
  | literal {value : Value} : Alike lines (.literal value) (.literal value)
  | grouping {inner inner' : Node} (inside : Alike lines inner inner') :
    Alike lines (.grouping inner) (.grouping inner')
  | unary {operator operator' : Token} {operand operand' : Node}
    (operators : operator.Alike lines operator') (operands : Alike lines operand operand') :
    Alike lines (.unary operator operand) (.unary operator' operand')
  | binary {left left' right right' : Node} {operator operator' : Token}
    (lefts : Alike lines left left') (operators : operator.Alike lines operator')
    (rights : Alike lines right right') :
    Alike lines (.binary left operator right) (.binary left' operator' right')
  | logical {left left' right right' : Node} {operator operator' : Token}
    (lefts : Alike lines left left') (operators : operator.Alike lines operator')
    (rights : Alike lines right right') :
    Alike lines (.logical left operator right) (.logical left' operator' right')
  | reference {name name' : Token} (names : name.Alike lines name') :
    Alike lines (.reference name) (.reference name')
  | assign {name name' : Token} {value value' : Node} (names : name.Alike lines name')
    (values : Alike lines value value') : Alike lines (.assign name value) (.assign name' value')
  | exprStmt {expr expr' : Node} (exprs : Alike lines expr expr') :
    Alike lines (.exprStmt expr) (.exprStmt expr')
  | printStmt {expr expr' : Node} (exprs : Alike lines expr expr') :
    Alike lines (.printStmt expr) (.printStmt expr')
  | varStmt {name name' : Token} {initializer initializer' : Node}
    (names : name.Alike lines name') (initializers : Alike lines initializer initializer') :
    Alike lines (.varStmt name initializer) (.varStmt name' initializer')
  | blockStmt {body body' : List Node} (bodies : List.Forall₂ (Alike lines) body body') :
    Alike lines (.blockStmt body) (.blockStmt body')
  | ifStmt {condition condition' thenBranch thenBranch' elseBranch elseBranch' : Node}
    (conditions : Alike lines condition condition')
    (thenBranches : Alike lines thenBranch thenBranch')
    (elseBranches : Alike lines elseBranch elseBranch') :
    Alike lines (.ifStmt condition thenBranch elseBranch)
      (.ifStmt condition' thenBranch' elseBranch')
  | whileStmt {condition condition' body body' : Node}
    (conditions : Alike lines condition condition') (bodies : Alike lines body body') :
    Alike lines (.whileStmt condition body) (.whileStmt condition' body')

/-- Several trees, each of which is like the one at its place among the others. -/
abbrev Node.AllAlike (lines : Int → Int → Prop) : List Node → List Node → Prop :=
  List.Forall₂ (Node.Alike lines)

variable {lines : Int → Int → Prop}

theorem Node.Alike.kindName {node node' : Node} (alike : node.Alike lines node') :
    node.kindName = node'.kindName := by
  cases alike <;> rfl

/-! ## First lines -/

namespace Node

/-- Fragments of one sort that are alike. -/
inductive Fragment.Alike (lines : Int → Int → Prop) : Fragment → Fragment → Prop where
  | token {token token' : Token} (tokens : token.Alike lines token') :
    Alike lines (.token token) (.token token')
  | tree {node node' : Node} (nodes : node.Alike lines node') :
    Alike lines (.tree node) (.tree node')

theorem Alike.fragments {node node' : Node} (alike : node.Alike lines node') :
    List.Forall₂ (Fragment.Alike lines) node.fragments node'.fragments := by
  cases alike with
  | absent | literal => exact .nil
  | grouping inside => exact .cons (.tree inside) .nil
  | unary operators operands => exact .cons (.token operators) (.cons (.tree operands) .nil)
  | binary lefts operators rights | logical lefts operators rights =>
      exact .cons (.tree lefts) (.cons (.token operators) (.cons (.tree rights) .nil))
  | reference names => exact .cons (.token names) .nil
  | assign names values => exact .cons (.token names) (.cons (.tree values) .nil)
  | exprStmt exprs | printStmt exprs => exact .cons (.tree exprs) .nil
  | varStmt names initializers => exact .cons (.token names) (.cons (.tree initializers) .nil)
  | blockStmt bodies =>
      rw [Node.fragments, Node.fragments, List.forall₂_map_left_iff, List.forall₂_map_right_iff]
      exact bodies.imp fun _ _ => .tree
  | ifStmt conditions thenBranches elseBranches =>
      exact .cons (.tree conditions) (.cons (.tree thenBranches) (.cons (.tree elseBranches) .nil))
  | whileStmt conditions bodies => exact .cons (.tree conditions) (.cons (.tree bodies) .nil)

/-- The first lines of fragments that are alike correspond. -/
theorem leadingLine?_alike {pending pending' : List Fragment}
    (alike : List.Forall₂ (Fragment.Alike lines) pending pending') :
    Option.Rel lines (leadingLine? pending) (leadingLine? pending') := by
  induction pending using leadingLine?.induct generalizing pending' with
  | case1 =>
      cases alike
      rw [leadingLine?]
      exact .none
  | case2 token pending =>
      cases alike with
      | cons first _ =>
          cases first with
          | token tokens =>
              rw [leadingLine?, leadingLine?]
              exact .some tokens.line
  | case3 node pending inductionHypothesis =>
      cases alike with
      | cons first others =>
          cases first with
          | tree nodes =>
              rw [leadingLine?, leadingLine?]
              exact inductionHypothesis (List.rel_append nodes.fragments others)

/-- The first lines of trees that are alike correspond, if the trees hold tokens. -/
theorem leadingLine_alike {node node' : Node} (alike : node.Alike lines node') (otherwise : Int) :
    lines (node.leadingLine otherwise) (node'.leadingLine otherwise) ∨
      node.leadingLine otherwise = otherwise ∧ node'.leadingLine otherwise = otherwise := by
  have first := leadingLine?_alike (.cons (.tree alike) .nil)
  unfold leadingLine
  generalize leadingLine? [.tree node] = line, leadingLine? [.tree node'] = line' at first
  cases first with
  | some correspond => exact Or.inl correspond
  | none => exact Or.inr ⟨rfl, rfl⟩

end Node

end TreeWalker
