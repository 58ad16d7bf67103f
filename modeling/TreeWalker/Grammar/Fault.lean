import TreeWalker.Diagnostic
import TreeWalker.Token

/-!
# Syntax errors

A syntax error names what the grammar asked for and the token that stands there
instead, with its position in the token list.
-/

namespace TreeWalker.Grammar

/-- What a semicolon ends. -/
inductive Sentence where
  | declaration
  | value
  | expression
deriving DecidableEq, Repr

/-- What stands under a condition. -/
inductive Guarded where
  | branch
  | loop
deriving DecidableEq, Repr

/-- What is wrong at a token. -/
inductive Fault where
  | expression
  | variableName
  | semicolonAfter (sentence : Sentence)
  | conditionOpening (guarded : Guarded)
  | conditionClosing (guarded : Guarded)
  | groupClosing
  | blockClosing
  | endOfExpression
  | assignmentTarget
  | nesting
deriving DecidableEq, Repr

namespace Fault

/-- Wording of a fault. -/
def message : Fault → String
  | expression => "Expect expression."
  | variableName => "Expect variable name."
  | semicolonAfter .declaration => "Expect ';' after variable declaration."
  | semicolonAfter .value => "Expect ';' after value."
  | semicolonAfter .expression => "Expect ';' after expression."
  | conditionOpening .branch => "Expect '(' after 'if'."
  | conditionOpening .loop => "Expect '(' after 'while'."
  | conditionClosing .branch => "Expect ')' after if condition."
  | conditionClosing .loop => "Expect ')' after condition."
  | groupClosing => "Expect ')' after expression."
  | blockClosing => "Expect '\x7d' after block."
  | endOfExpression => "Expect end of expression."
  | assignmentTarget => "Invalid assignment target."
  | nesting => "Nesting too deep."

end Fault

/-- A fault at a token. -/
structure SyntaxError where
  position : Nat
  token : Token
  fault : Fault
deriving DecidableEq

namespace SyntaxError

/-- The place of a token on its line, in words. -/
def place (token : Token) : String :=
  match token.kind with
  | .eof => " at end"
  | _ => " at '" ++ token.lexeme ++ "'"

/-- The diagnostic for a syntax error. -/
def diagnostic (error : SyntaxError) : Diagnostic :=
  ⟨.parse, error.token.line, place error.token, error.fault.message⟩

end SyntaxError

end TreeWalker.Grammar
