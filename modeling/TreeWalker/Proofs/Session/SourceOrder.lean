import TreeWalker.Proofs.Grammar.Gathering
import TreeWalker.Proofs.Lexical.LineNumbers
import TreeWalker.Reading

/-!
# The order of a source

The statements that are read hold tokens of the source in its order, also where parts
of the source were dropped.  The lines of the tokens rise, so the first token that a
statement holds is on the smallest line.
-/

namespace TreeWalker.Reading

variable {limit : Nat}

/-- The lines of the tokens that a statement holds rise. -/
theorem lines_rising {source : List Char} {statement : Node}
    (member : statement ∈ (ofSource limit source).statements) :
    (statement.tokens.map Token.line).Pairwise (· ≤ ·) := by
  have held : statement.tokens.Sublist (ofSource limit source).scan.tokens :=
    (Node.tokens_sublist_tokensOfAll member).trans (Grammar.tokensOfAll_sublist _)
  exact (Lexical.lines_rising source).sublist (held.map Token.line)

/-- The statements hold tokens of the source, each of them once and in their order.
The first line of a statement is the smallest line of a token that it holds, if it
holds any. -/
theorem statements_in_order (source : List Char) :
    (Node.tokensOfAll (ofSource limit source).statements).Sublist
        (ofSource limit source).scan.tokens ∧
      ∀ statement ∈ (ofSource limit source).statements, ∀ otherwise,
        statement.leadingLine otherwise =
          (statement.tokens.map Token.line).min?.getD otherwise :=
  ⟨Grammar.tokensOfAll_sublist _, fun _ member => Node.leadingLine_eq_min (lines_rising member)⟩

end TreeWalker.Reading
