import TreeWalker.Proofs.Evaluation.Soundness
import TreeWalker.Proofs.Grammar.Correctness
import TreeWalker.Proofs.Lexical.Decomposition
import TreeWalker.Reading

/-!
# Long sums

The operands of a sum stand side by side in the source and are read by a loop, so
no number of them is too many for the parser, which takes three levels for each sum.
Their tree leans to the left, though, and is the higher the more of them there are.
-/

namespace TreeWalker.Grammar

variable {limit : Nat}

/-- The operator of the sums. -/
def plusToken : Token :=
  ⟨.symbol .plus, "+", .nil, 1⟩

/-- The end of the sums. -/
def semicolonToken : Token :=
  ⟨.symbol .semicolon, ";", .nil, 1⟩

/-- The tokens of so many further operands. -/
def summands : Nat → List Token
  | 0 => []
  | count + 1 => plusToken :: letter "a" :: summands count

/-- The tree of a sum with so many further operands. -/
def summed (left : Node) : Nat → Node
  | 0 => left
  | count + 1 => summed (.binary left plusToken (.reference (letter "a"))) count

/-- The tokens of the statement `a + a + ... + a;`, with so many operators. -/
def sumBody (count : Nat) : List Token :=
  letter "a" :: (summands count ++ [semicolonToken])

/-- The tree of that statement. -/
def sumStatement (count : Nat) : Node :=
  .exprStmt (summed (.reference (letter "a")) count)

/-! ## Sums are parsed -/

/-- The level of sums. -/
def sumLevel : Level :=
  ⟨[.symbol .minus, .symbol .plus], .binary⟩

/-- The level below that of sums. -/
def productLevel : Level :=
  ⟨[.symbol .slash, .symbol .star], .binary⟩

/-- A sum has the phrases of its operands. -/
theorem phrase_summed {left : Node} {word : List Token}
    (phrase : Phrase (.operation [sumLevel, productLevel]) left word []) (count : Nat) :
    Phrase (.operation [sumLevel, productLevel]) (summed left count) (word ++ summands count)
      [] := by
  induction count generalizing left word with
  | zero => rwa [summands, List.append_nil]
  | succ count inductionHypothesis =>
      have operand : Phrase (.operation [productLevel]) (.reference (letter "a")) [letter "a"] [] :=
        .tighter (.tightest (.reference rfl))
      have grown : Phrase (.operation [sumLevel, productLevel])
          (.binary left plusToken (.reference (letter "a"))) (word ++ [plusToken, letter "a"]) [] :=
        .apply phrase rfl operand
      have whole := inductionHypothesis grown
      rwa [List.append_assoc] at whole

theorem clause_sumStatement (count : Nat) :
    Clause .declaration (sumStatement count) (sumBody count) [] := by
  have first : Phrase (.operation [sumLevel, productLevel]) (.reference (letter "a"))
      [letter "a"] [] := .tighter (.tighter (.tightest (.reference rfl)))
  have sum : Phrase (.operation Level.all) (summed (.reference (letter "a")) count)
      (letter "a" :: summands count) [] :=
    .tighter (.tighter (.tighter (.tighter (phrase_summed first count))))
  exact .statement (.expression (.plain sum) rfl)

/-- To the parser the operands are not nested in one another. -/
theorem nesting_summed {left : Node} (positive : 0 < left.nesting) (count : Nat) :
    (summed left count).nesting = left.nesting := by
  induction count generalizing left with
  | zero => rfl
  | succ count inductionHypothesis =>
      have grown : (Node.binary left plusToken (.reference (letter "a"))).nesting =
          left.nesting := by
        rw [Node.nesting, Node.nesting, Nat.max_eq_left positive]
      rw [summed, inductionHypothesis (by omega), grown]

/-- A sum is parsed without a report, however many operands it has. -/
theorem parsed_sum (fits : 3 ≤ limit) (count : Nat) {eof : Token} (isEnd : eof.kind = .eof) :
    Parsed.ofProgram limit (sumBody count ++ [eof]) = ⟨[sumStatement count], []⟩ := by
  have body : Body [sumStatement count] (sumBody count ++ []) ([] ++ []) :=
    .item (clause_sumStatement count) .empty
  rw [List.append_nil] at body
  refine parsed_of_body body isEnd ?_
  have single : (Node.reference (letter "a")).nesting = 1 := by rw [Node.nesting]
  rw [Node.nestingOfAll, Node.nestingOfAll, sumStatement, Node.nesting,
    nesting_summed (by omega), single]
  exact fits

/-! ## The text of a sum -/

open Lexical

/-- The text of so many further operands, with the end of the sum. -/
def sumTail : Nat → List Char
  | 0 => [';']
  | count + 1 => '+' :: 'a' :: sumTail count

/-- The text `a+a+...+a;`, with so many operators. -/
def sumText (count : Nat) : List Char :=
  'a' :: sumTail count

theorem lead_operand (count : Nat) :
    Lead.of 'a' (sumTail count) = (⟨.token .identifier .nil, ['a']⟩, sumTail count) := by
  cases count <;> rfl

theorem cut_sumTail_succ (count : Nat) :
    cut (sumTail (count + 1)) = ⟨.token (.symbol .plus) .nil, ['+']⟩ ::
      ⟨.token .identifier .nil, ['a']⟩ :: cut (sumTail count) := by
  have lead : Lead.of '+' ('a' :: sumTail count) =
      (⟨.token (.symbol .plus) .nil, ['+']⟩, 'a' :: sumTail count) := rfl
  rw [sumTail, cut_cons, lead, cut_cons, lead_operand]

theorem tokens_sumTail (count : Nat) :
    (placeFrom 1 (cut (sumTail count))).filterMap (fun segment => segment.1.token? segment.2) =
      summands count ++ [semicolonToken] := by
  induction count with
  | zero => rfl
  | succ count inductionHypothesis =>
      rw [cut_sumTail_succ, summands, List.cons_append, List.cons_append, ← inductionHypothesis]
      rfl

theorem diagnostics_sumTail (count : Nat) :
    (placeFrom 1 (cut (sumTail count))).filterMap
      (fun segment => segment.1.diagnostic? segment.2) = [] := by
  induction count with
  | zero => rfl
  | succ count inductionHypothesis =>
      rw [cut_sumTail_succ]
      exact inductionHypothesis

theorem lineFeeds_sumTail (count : Nat) : lineFeeds (sumTail count) = 0 := by
  induction count with
  | zero => rfl
  | succ count inductionHypothesis => simpa [sumTail, lineFeeds] using inductionHypothesis

/-- The text of a sum is scanned without a complaint. -/
theorem ofText_sumText (count : Nat) :
    Scan.ofText (sumText count) = ⟨sumBody count ++ [endToken 1], []⟩ := by
  have line : lastLine (sumText count) = 1 := by
    rw [lastLine, sumText, ← List.singleton_append, lineFeeds_append, lineFeeds_sumTail]
    rfl
  rw [ofText_eq, line, sumText, cut_cons, lead_operand]
  exact congrArg₂ Scan.mk (congrArg (letter "a" :: · ++ [endToken 1]) (tokens_sumTail count))
    (diagnostics_sumTail count)

/-- A sum is read without a report, however many operands it has. -/
theorem ofSource_sumText (fits : 3 ≤ limit) (count : Nat) :
    Reading.ofSource limit (sumText count) =
      ⟨⟨sumBody count ++ [endToken 1], []⟩, ⟨[sumStatement count], []⟩⟩ := by
  rw [Reading.ofSource, ofText_sumText, parsed_sum fits count rfl]

end TreeWalker.Grammar
