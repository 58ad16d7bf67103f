import TreeWalker.Grammar.Expression

/-!
# Statements and declarations

A variable is declared at the top of a program or directly in a block.  A
declaration that is rejected is dropped, and parsing goes on at the next
boundary between statements.  An else belongs to the nearest if that can take
it.
-/

namespace TreeWalker.Grammar

/-- The semicolon that ends a sentence. -/
def sentenceEnd (sentence : Sentence) : Parser Unit := do
  let _ ← expect (.symbol .semicolon) (.semicolonAfter sentence)

/-- A condition in parentheses. -/
def condition (guarded : Guarded) (expr : Parser Node) : Parser Node := do
  let _ ← expect (.symbol .leftParen) (.conditionOpening guarded)
  let condition ← expr
  let _ ← expect (.symbol .rightParen) (.conditionClosing guarded)
  return condition

/-- What follows `print`. -/
def printRest (expr : Parser Node) : Parser Node := do
  let value ← expr
  sentenceEnd .value
  return .printStmt value

/-- What follows `if`. -/
def ifRest (expr nested : Parser Node) : Parser Node := do
  let condition ← condition .branch expr
  let thenBranch ← nested
  match ← accept? (· == .keyword .kwElse) with
  | some _ =>
    let elseBranch ← nested
    return .ifStmt condition thenBranch elseBranch
  | none => return .ifStmt condition thenBranch .absent

/-- What follows `while`. -/
def whileRest (expr nested : Parser Node) : Parser Node := do
  let condition ← condition .loop expr
  let body ← nested
  return .whileStmt condition body

/-- What follows `var`. -/
def varRest (expr : Parser Node) : Parser Node := do
  let name ← expect .identifier .variableName
  match ← accept? (· == .symbol .equal) with
  | some _ =>
    let initializer ← expr
    sentenceEnd .declaration
    return .varStmt name initializer
  | none =>
    sentenceEnd .declaration
    return .varStmt name .absent

/-- An expression for its effects. -/
def exprSentence (expr : Parser Node) : Parser Node := do
  let expr ← expr
  sentenceEnd .expression
  return .exprStmt expr

/-- A declaration or statement.  It comes to nothing if it is rejected. -/
def declarationOf (expr statement : Parser Node) : Parser (Option Node) := do
  let start := (← get).position
  recovering start do
    match ← accept? (· == .keyword .kwVar) with
    | some _ => varRest expr
    | none => statement

/-- Kinds of tokens that end the statements of a block. -/
def endsBlock : TokenKind → Bool
  | .eof | .symbol .rightBrace => true
  | _ => false

/-- What follows the brace that opens a block. -/
def blockRest (item : Parser (Option Node)) : Parser Node := do
  modify fun cursor => { cursor with openBlocks := cursor.openBlocks + 1 }
  let body ← many endsBlock item
  modify fun cursor => { cursor with openBlocks := cursor.openBlocks - 1 }
  let _ ← expect (.symbol .rightBrace) .blockClosing
  return .blockStmt body

/-- Kinds of tokens that lead a statement other than an expression. -/
def leadsStatement : TokenKind → Bool
  | .keyword .kwPrint | .keyword .kwIf | .keyword .kwWhile | .symbol .leftBrace => true
  | _ => false

/-- A statement around the given rules for what is nested in it. -/
def statementOf (expr nested : Parser Node) : Parser Node := do
  match ← accept? leadsStatement with
  | none => exprSentence expr
  | some lead =>
    match lead.kind with
    | .keyword .kwPrint => printRest expr
    | .keyword .kwIf => ifRest expr nested
    | .keyword .kwWhile => whileRest expr nested
    | _ => blockRest (declarationOf expr nested)

/-- A statement, nested at most so many levels deep. -/
def statement : (levels : Nat) → Parser Node
  | 0 => throw .overNested
  | levels + 1 => statementOf (expression levels) (statement levels)

/-- A declaration or statement, nested at most so many levels deep. -/
def declaration (levels : Nat) : Parser (Option Node) :=
  declarationOf (expression levels) (statement levels)

end TreeWalker.Grammar
