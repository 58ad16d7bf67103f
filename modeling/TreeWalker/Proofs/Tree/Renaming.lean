import TreeWalker.Proofs.Tree.LeadingLine

/-!
# Trees under other names

The variables of a tree are given other names.  The tokens of operators keep their texts, and
all tokens keep their lines.
-/

namespace TreeWalker

variable (rename : String → String)

/-- The token of a name, with the name changed. -/
def Token.renamed (token : Token) : Token :=
  { token with lexeme := rename token.lexeme }

namespace Node

mutual

/-- The tree with the names of all variables changed. -/
def renamed : Node → Node
  | absent => absent
  | literal value => literal value
  | grouping inner => grouping inner.renamed
  | unary operator operand => unary operator operand.renamed
  | binary left operator right => binary left.renamed operator right.renamed
  | logical left operator right => logical left.renamed operator right.renamed
  | reference name => reference (name.renamed rename)
  | assign name value => assign (name.renamed rename) value.renamed
  | exprStmt expr => exprStmt expr.renamed
  | printStmt expr => printStmt expr.renamed
  | varStmt name initializer => varStmt (name.renamed rename) initializer.renamed
  | blockStmt body => blockStmt (renamedAll body)
  | ifStmt condition thenBranch elseBranch =>
    ifStmt condition.renamed thenBranch.renamed elseBranch.renamed
  | whileStmt condition body => whileStmt condition.renamed body.renamed

/-- The trees with the names of all variables changed. -/
def renamedAll : List Node → List Node
  | [] => []
  | node :: nodes => node.renamed :: renamedAll nodes

end

mutual

/-- Changing names changes no line. -/
theorem lines_renamed (node : Node) :
    (node.renamed rename).tokens.map Token.line = node.tokens.map Token.line := by
  cases node with
  | absent | literal _ | reference _ => rfl
  | grouping inner => exact lines_renamed inner
  | unary _ operand => simp [renamed, tokens, lines_renamed operand]
  | binary left _ right | logical left _ right =>
      simp [renamed, tokens, lines_renamed left, lines_renamed right]
  | assign _ value => simp [renamed, tokens, Token.renamed, lines_renamed value]
  | exprStmt expr | printStmt expr => exact lines_renamed expr
  | varStmt _ initializer => simp [renamed, tokens, Token.renamed, lines_renamed initializer]
  | blockStmt body => exact lines_renamedAll body
  | ifStmt condition thenBranch elseBranch =>
      simp [renamed, tokens, lines_renamed condition, lines_renamed thenBranch,
        lines_renamed elseBranch]
  | whileStmt condition body =>
      simp [renamed, tokens, lines_renamed condition, lines_renamed body]

theorem lines_renamedAll (nodes : List Node) :
    (tokensOfAll (renamedAll rename nodes)).map Token.line =
      (tokensOfAll nodes).map Token.line := by
  cases nodes with
  | nil => rfl
  | cons node nodes => simp [renamedAll, tokensOfAll, lines_renamed node, lines_renamedAll nodes]

end

theorem leadingLine_renamed (node : Node) (otherwise : Int) :
    (node.renamed rename).leadingLine otherwise = node.leadingLine otherwise := by
  rw [leadingLine_eq, leadingLine_eq, ← List.head?_map, ← List.head?_map, lines_renamed]

end Node

end TreeWalker
