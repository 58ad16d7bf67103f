import TreeWalker.Grammar.Statement

/-!
# Programs

A program is a list of declarations and statements up to the end of the source.
What is nested too deeply costs one declaration.  A single expression can also
be parsed on its own; then nothing may follow it.
-/

namespace TreeWalker.Grammar

/-- The kind of the token that ends a source. -/
def endsSource (kind : TokenKind) : Bool :=
  kind == .eof

/-- A declaration at the top of a program, given up if it is nested more levels
deep than allowed. -/
def topDeclaration (levels : Nat) : Parser (Option Node) := do
  let start := (← get).position
  abandoning start (declaration levels)

/-- A program. -/
def program (levels : Nat) : Parser (List Node) :=
  many endsSource (topDeclaration levels)

/-- An expression up to the end of the source. -/
def wholeExpression (levels : Nat) : Parser Node := do
  let expr ← expression levels
  let token ← nextToken
  if endsSource token.kind then
    return expr
  else
    reject .endOfExpression

/-- An expression on its own, or nothing if it is rejected or given up. -/
def loneExpression (levels : Nat) : Parser (Option Node) :=
  abandoning 0 fun cursor =>
    match wholeExpression levels cursor with
    | .ok expr after => .ok (some expr) after
    | .error .rejected after => .ok none after
    | .error stop after => .error stop after

/-- The outcome of parsing: what was parsed, and the problems met, in the order
in which they were found. -/
structure Parsed (α : Type) where
  result : α
  diagnostics : List Diagnostic

/-- Diagnostics of the errors noted by a parser. -/
def Cursor.diagnostics (cursor : Cursor) : List Diagnostic :=
  cursor.errors.map SyntaxError.diagnostic

/-- Outcome of a parser on a token list; the given result stands for none. -/
def parseWith {α : Type} (parser : Parser α) (none : α) (tokens : List Token) : Parsed α :=
  match parser (Cursor.atStart tokens) with
  | .ok result cursor => ⟨result, cursor.diagnostics⟩
  | .error _ cursor => ⟨none, cursor.diagnostics⟩

/-- Parse the tokens of a source as a program, with so many levels for what is nested. -/
def Parsed.ofProgram (levels : Nat) (tokens : List Token) : Parsed (List Node) :=
  parseWith (program levels) [] tokens

/-- Parse the tokens of a source as an expression, with so many levels for what is
nested. -/
def Parsed.ofExpression (levels : Nat) (tokens : List Token) : Parsed (Option Node) :=
  parseWith (loneExpression levels) none tokens

end TreeWalker.Grammar
