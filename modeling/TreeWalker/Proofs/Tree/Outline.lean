import TreeWalker.Proofs.Tree.Forms
import TreeWalker.Proofs.Tree.Rendering

/-!
# Outlines are lines of forms

The text of an expression is that of a form, and the outline of a statement is made of
lines, of which the first is indented like the statement itself and the others, but for
an `Else`, further.  So a statement ends where its lines do.
-/

namespace TreeWalker

/-- A rendering comes to nothing but the given letters. -/
def Shows (rendered : Rendered) (letters : List Char) : Prop :=
  ∀ text, rendered = .ok text → text.toList = letters

namespace Shows

variable {rendered : Rendered} {letters letters' : List Char} {fault : RenderFault}

theorem pure {text : String} (same : text.toList = letters) : Shows (pure text) letters := by
  rintro _ ⟨⟩
  exact same

theorem error : Shows (.error fault) letters :=
  fun _ => nofun

/-- One rendering after the other. -/
theorem bind {next : String → Rendered} (first : Shows rendered letters)
    (second : ∀ text, text.toList = letters → Shows (next text) letters') :
    Shows (rendered >>= next) letters' := by
  cases rendered with
  | error fault => exact fun _ => nofun
  | ok text => exact second text (first text rfl)

end Shows

namespace Node

/-- The form that an expression is shown as. -/
def form : Node → Form
  | literal value => .word value.display.toList
  | grouping inner => .one "group".toList inner.form
  | unary operator operand => .one operator.lexeme.toList operand.form
  | binary left operator right | logical left operator right =>
    .two operator.lexeme.toList left.form right.form
  | reference name => .word name.lexeme.toList
  | assign name value => .two "=".toList (.word name.lexeme.toList) value.form
  | _ => .word []

mutual

/-- The lines of the outline of a statement. -/
def lines (indent : Nat) : Node → List Line
  | exprStmt expr => [⟨indent, "Expression".toList, [expr.form]⟩]
  | printStmt expr => [⟨indent, "Print".toList, [expr.form]⟩]
  | varStmt name absent => [⟨indent, "Var".toList, [.word name.lexeme.toList]⟩]
  | varStmt name initializer =>
    [⟨indent, "Var".toList, [.word name.lexeme.toList, .word "=".toList, initializer.form]⟩]
  | blockStmt body => ⟨indent, "Block".toList, []⟩ :: linesOfAll (indent + 1) body
  | ifStmt condition thenBranch absent =>
    ⟨indent, "If".toList, [condition.form]⟩ :: thenBranch.lines (indent + 1)
  | ifStmt condition thenBranch elseBranch =>
    ⟨indent, "If".toList, [condition.form]⟩ :: (thenBranch.lines (indent + 1) ++
      ⟨indent, "Else".toList, []⟩ :: elseBranch.lines (indent + 1))
  | whileStmt condition body =>
    ⟨indent, "While".toList, [condition.form]⟩ :: body.lines (indent + 1)
  | _ => []

/-- The lines of several outlines. -/
def linesOfAll (indent : Nat) : List Node → List Line
  | [] => []
  | node :: nodes => node.lines indent ++ linesOfAll indent nodes

end

/-! ## What is rendered -/

theorem shows_valueText (toll : Value → Nat) (levels : Nat) (value : Value) :
    Shows (valueText toll levels value) value.display.toList := by
  unfold valueText
  split
  · exact .error
  · exact .pure rfl

theorem shows_operatorFirst (stride : Nat) (toll : Value → Nat) (node : Node) (levels : Nat) :
    Shows (node.operatorFirst stride toll levels) node.form.text := by
  fun_induction operatorFirst stride toll levels node with
  | case1 | case9 => exact .error
  | case2 => exact shows_valueText _ _ _
  | case7 => exact .pure rfl
  | case3 _ _ inductionHypothesis | case4 _ _ _ inductionHypothesis
  | case8 _ _ _ inductionHypothesis =>
      exact inductionHypothesis.bind fun text same =>
        .pure (by simp [parenthesized, form, Form.text, same])
  | case5 _ _ _ _ leftHypothesis rightHypothesis
  | case6 _ _ _ _ leftHypothesis rightHypothesis =>
      exact leftHypothesis.bind fun text same => rightHypothesis.bind fun text' same' =>
        .pure (by simp [parenthesized, form, Form.text, same, same'])

/-- Text of several lines. -/
abbrev textOfLines (lines : List Line) : List Char :=
  lines.flatMap Line.text

theorem shows_concatenated {render : Node → Rendered} {indent : Nat} {nodes : List Node}
    (each : ∀ node ∈ nodes, Shows (render node) (textOfLines (node.lines indent))) :
    Shows (concatenated render nodes) (textOfLines (linesOfAll indent nodes)) := by
  induction nodes with
  | nil => exact .pure rfl
  | cons node nodes inductionHypothesis =>
      obtain ⟨first, others⟩ := List.forall_mem_cons.mp each
      exact first.bind fun text same => (inductionHypothesis others).bind fun text' same' =>
        .pure (by simp [linesOfAll, same, same'])

theorem toList_padding (indent : Nat) :
    (padding indent).toList = List.replicate (2 * indent) ' ' := by
  simp [padding]

theorem shows_outline (stride : Nat) (toll : Value → Nat) (node : Node) (levels indent : Nat) :
    Shows (node.outline stride toll levels indent) (textOfLines (node.lines indent)) := by
  induction levels generalizing node indent with
  | zero => exact .error
  | succ levels inductionHypothesis =>
      have pad := toList_padding indent
      cases node with
      | exprStmt expr =>
          exact (shows_operatorFirst stride toll expr levels).bind fun text same =>
            .pure (by simp [lines, Line.text, spacedForms, pad, same])
      | printStmt expr =>
          exact (shows_operatorFirst stride toll expr levels).bind fun text same =>
            .pure (by simp [lines, Line.text, spacedForms, pad, same])
      | varStmt name initializer =>
          cases initializer with
          | absent => exact .pure (by simp [lines, Line.text, spacedForms, Form.text, pad])
          | _ =>
              exact (shows_operatorFirst stride toll _ levels).bind fun text same =>
                .pure (by simp [lines, Line.text, spacedForms, Form.text, pad, same])
      | blockStmt body =>
          have inside : Shows (concatenated (outline stride toll levels (indent + 1)) body)
              (textOfLines (linesOfAll (indent + 1) body)) :=
            shows_concatenated fun node _ => inductionHypothesis node (indent + 1)
          exact inside.bind fun text same =>
            .pure (by simp [lines, Line.text, spacedForms, pad, same])
      | ifStmt condition thenBranch elseBranch =>
          refine (shows_operatorFirst stride toll condition levels).bind fun text same =>
            (inductionHypothesis thenBranch (indent + 1)).bind fun text' same' => ?_
          cases elseBranch with
          | absent =>
              exact .pure (by simp [lines, Line.text, spacedForms, pad, same, same'])
          | _ =>
              exact (inductionHypothesis _ (indent + 1)).bind fun text'' same'' =>
                .pure (by simp [lines, Line.text, spacedForms, pad, same, same', same''])
      | whileStmt condition body =>
          exact (shows_operatorFirst stride toll condition levels).bind fun text same =>
            (inductionHypothesis body (indent + 1)).bind fun text' same' =>
              .pure (by simp [lines, Line.text, spacedForms, pad, same, same'])
      | _ => exact .error

end Node

end TreeWalker
