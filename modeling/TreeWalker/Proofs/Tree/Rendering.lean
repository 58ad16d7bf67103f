import Mathlib.Order.MinMax
import TreeWalker.Proofs.Grammar.Shape
import TreeWalker.Proofs.Grammar.Spelling
import TreeWalker.Tree.Rendering

/-!
# Levels of renderings

A well-formed tree has a rendering exactly if it is not higher than there are levels to
walk down.  A higher one is given up, and nothing else can go wrong.  How high a tree is
depends on the rendering: operands stand a stride below their operation, and a value
stands above its text.
-/

namespace TreeWalker

/-- A rendering that comes to a text if there are enough levels, and is given up if
there are not. -/
structure Needs (height levels : Nat) (rendered : Rendered) : Prop where
  shown : height ≤ levels → ∃ text, rendered = .ok text
  givenUp : levels < height → rendered = .error .overNested

namespace Needs

variable {height height' levels : Nat} {rendered : Rendered}

theorem text (text : String) : Needs 0 levels (pure text) :=
  ⟨fun _ => ⟨text, rfl⟩, fun impossible => absurd impossible (Nat.not_lt_zero levels)⟩

theorem nothing (positive : 0 < height) : Needs height 0 (.error .overNested) :=
  ⟨fun fits => absurd positive (Nat.not_lt.mpr fits), fun _ => rfl⟩

/-- A rendering one level down. -/
theorem below (needs : Needs height levels rendered) : Needs (height + 1) (levels + 1) rendered :=
  ⟨fun fits => needs.shown (Nat.le_of_succ_le_succ fits),
    fun high => needs.givenUp (Nat.lt_of_succ_lt_succ high)⟩

/-- A rendering a stride down, of something that takes a level at least. -/
theorem stepped {stride : Nat} (needs : Needs height (levels - stride) rendered)
    (positive : 0 < height) : Needs (height + stride) levels rendered :=
  ⟨fun fits => needs.shown (Nat.le_sub_of_add_le fits),
    fun high => needs.givenUp (by omega)⟩

/-- One rendering after the other. -/
theorem bind {next : String → Rendered} (first : Needs height levels rendered)
    (second : ∀ text, Needs height' levels (next text)) :
    Needs (max height height') levels (rendered >>= next) := by
  constructor
  · intro fits
    rcases Nat.max_le.mp fits with ⟨firstFits, secondFits⟩
    obtain ⟨text, rfl⟩ := first.shown firstFits
    exact (second text).shown secondFits
  · intro high
    by_cases firstFits : height ≤ levels
    · obtain ⟨text, rfl⟩ := first.shown firstFits
      have secondHigh := (lt_max_iff.mp high).resolve_left (Nat.not_lt.mpr firstFits)
      exact (second text).givenUp secondHigh
    · rw [first.givenUp (Nat.lt_of_not_le firstFits)]
      rfl

/-- A rendering with something added to its text. -/
theorem map {change : String → String} (needs : Needs height levels rendered) :
    Needs height levels (rendered >>= fun text => pure (change text)) := by
  have whole := needs.bind fun given => text (change given)
  rwa [Nat.max_eq_left (Nat.zero_le height)] at whole

end Needs

namespace Node

/-- Levels that an expression takes whose operands stand a stride below their
operation. -/
def height (stride : Nat) (toll : Value → Nat) : Node → Nat
  | literal value => toll value + 1
  | reference _ => 1
  | grouping inner => inner.height stride toll + stride
  | unary _ operand => operand.height stride toll + stride
  | binary left _ right | logical left _ right =>
    max (left.height stride toll) (right.height stride toll) + stride
  | assign _ value => value.height stride toll + 1
  | _ => 0

mutual

/-- Levels that the outline of a statement takes. -/
def outlineHeight (stride : Nat) (toll : Value → Nat) : Node → Nat
  | exprStmt expr | printStmt expr => expr.height stride toll + 1
  | varStmt _ initializer => initializer.height stride toll + 1
  | blockStmt body => outlineHeightOfAll stride toll body + 1
  | ifStmt condition thenBranch elseBranch =>
    max (condition.height stride toll)
      (max (thenBranch.outlineHeight stride toll) (elseBranch.outlineHeight stride toll)) + 1
  | whileStmt condition body =>
    max (condition.height stride toll) (body.outlineHeight stride toll) + 1
  | _ => 0

/-- Levels that the outlines of several statements take. -/
def outlineHeightOfAll (stride : Nat) (toll : Value → Nat) : List Node → Nat
  | [] => 0
  | node :: nodes =>
    max (node.outlineHeight stride toll) (outlineHeightOfAll stride toll nodes)

end

variable (stride : Nat) (toll : Value → Nat)

/-! ## Expressions -/

theorem height_pos {node : Node} (forms : node.FormsExpression) : 0 < node.height stride toll := by
  induction node using Node.inductionOn with
  | literal | reference | assign => simp [height]
  | grouping _ inductionHypothesis | unary _ _ inductionHypothesis =>
      exact Nat.add_pos_left (inductionHypothesis forms) stride
  | binary _ _ _ leftHypothesis | logical _ _ _ leftHypothesis =>
      exact Nat.add_pos_left (lt_max_of_lt_left (leftHypothesis forms.1)) stride
  | _ => exact forms.elim

theorem needs_valueText (value : Value) (levels : Nat) :
    Needs (toll value) levels (valueText toll levels value) := by
  unfold valueText
  constructor
  · intro fits
    rw [if_neg (Nat.not_lt.mpr fits)]
    exact ⟨_, rfl⟩
  · intro high
    rw [if_pos high]

theorem needs_operatorFirst {node : Node} (forms : node.FormsExpression) (levels : Nat) :
    Needs (node.height stride toll) levels (node.operatorFirst stride toll levels) := by
  fun_induction operatorFirst stride toll levels node with
  | case1 => exact .nothing (height_pos stride toll forms)
  | case2 => exact .below (needs_valueText toll _ _)
  | case3 _ _ inductionHypothesis | case4 _ _ _ inductionHypothesis =>
      exact (inductionHypothesis forms).map.stepped (height_pos stride toll forms)
  | case5 _ _ _ _ leftHypothesis rightHypothesis
  | case6 _ _ _ _ leftHypothesis rightHypothesis =>
      refine Needs.stepped ?_ (lt_max_of_lt_left (height_pos stride toll forms.1))
      exact (leftHypothesis forms.1).bind fun _ => (rightHypothesis forms.2).map
  | case7 => exact .below (.text _)
  | case8 _ _ _ inductionHypothesis => exact .below (inductionHypothesis forms).map
  | case9 _ other => cases other <;> simp_all [FormsExpression]

theorem needs_reversePolish {node : Node} (forms : node.FormsExpression) (levels : Nat) :
    Needs (node.height 1 toll) levels (node.reversePolish toll levels) := by
  fun_induction reversePolish toll levels node with
  | case1 => exact .nothing (height_pos 1 toll forms)
  | case2 => exact .below (needs_valueText toll _ _)
  | case3 _ _ inductionHypothesis => exact .below (inductionHypothesis forms)
  | case4 _ _ _ inductionHypothesis | case8 _ _ _ inductionHypothesis =>
      exact .below (inductionHypothesis forms).map
  | case5 _ _ _ _ leftHypothesis rightHypothesis
  | case6 _ _ _ _ leftHypothesis rightHypothesis =>
      exact .below ((leftHypothesis forms.1).bind fun _ => (rightHypothesis forms.2).map)
  | case7 => exact .below (.text _)
  | case9 _ other => cases other <;> simp_all [FormsExpression]

/-! ## Statements -/

theorem outlineHeight_pos {node : Node} (forms : node.FormsStatement) :
    0 < node.outlineHeight stride toll := by
  cases node with
  | exprStmt | printStmt | varStmt | blockStmt | ifStmt | whileStmt => simp [outlineHeight]
  | _ => exact forms.elim

theorem needs_concatenated {render : Node → Rendered} {levels : Nat} {nodes : List Node}
    (each : ∀ node ∈ nodes, Needs (node.outlineHeight stride toll) levels (render node)) :
    Needs (outlineHeightOfAll stride toll nodes) levels (concatenated render nodes) := by
  induction nodes with
  | nil => exact .text ""
  | cons first nodes inductionHypothesis =>
      have others := inductionHypothesis fun node member =>
        each node (List.mem_cons_of_mem _ member)
      exact (each first List.mem_cons_self).bind fun _ => others.map

theorem needs_outline {node : Node} (forms : node.FormsStatement) (levels : Nat) (indent : Int) :
    Needs (node.outlineHeight stride toll) levels (node.outline stride toll levels indent) := by
  induction levels generalizing node indent with
  | zero => exact .nothing (outlineHeight_pos stride toll forms)
  | succ levels inductionHypothesis =>
      cases node with
      | exprStmt | printStmt => exact .below (.map (needs_operatorFirst stride toll forms levels))
      | varStmt name initializer =>
          rcases forms with rfl | shaped
          · exact .below (.text _)
          · cases initializer with
            | absent => exact shaped.elim
            | _ => exact .below (.map (needs_operatorFirst stride toll shaped levels))
      | blockStmt body =>
          have each := formStatements_iff.mp forms
          exact .below (.map (needs_concatenated stride toll fun node member =>
            inductionHypothesis (each node member) (indent + 1)))
      | ifStmt condition thenBranch elseBranch =>
          obtain ⟨testShaped, thenShaped, elseShaped⟩ := forms
          have test := needs_operatorFirst stride toll testShaped levels
          have thenNeeds := inductionHypothesis thenShaped (indent + 1)
          refine .below (test.bind fun _ => thenNeeds.bind fun _ => ?_)
          rcases elseShaped with rfl | shaped
          · exact .map (.text "")
          · have elseNeeds := inductionHypothesis shaped (indent + 1)
            cases elseBranch with
            | absent => exact shaped.elim
            | _ => exact .map elseNeeds
      | whileStmt condition body =>
          have test := needs_operatorFirst stride toll forms.1 levels
          exact .below (test.bind fun _ => .map (inductionHypothesis forms.2 (indent + 1)))
      | _ => exact forms.elim

end Node

end TreeWalker
