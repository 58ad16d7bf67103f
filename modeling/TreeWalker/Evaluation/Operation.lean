import TreeWalker.Token

/-!
# Operations on values

Arithmetic and order are for numbers, `+` also joins strings, and a string and a
number are joined by writing the number as it is shown.  Equality and negation of
truth are for all values.  An operation that a value does not allow is a fault,
and so is a division by zero of either sign.
-/

namespace TreeWalker.Evaluation

/-- What can go wrong while a well-formed program runs, and what an operator
token that is no operator comes to. -/
inductive Fault where
  | operand
  | operands
  | divisionByZero
  | addition (left right : String)
  | undefined (name : String)
  | unaryOperator (lexeme : String)
  | binaryOperator (lexeme : String)
deriving DecidableEq, Repr

namespace Fault

/-- Wording of a fault. -/
def message : Fault → String
  | operand => "Operand must be a number."
  | operands => "Operands must be numbers."
  | divisionByZero => "Division by zero."
  | addition left right =>
    "Operands must be two numbers or two strings (got " ++ left ++ " and " ++ right ++ ")."
  | undefined name => "Undefined variable '" ++ name ++ "'."
  | unaryOperator lexeme => "Unknown unary operator '" ++ lexeme ++ "'."
  | binaryOperator lexeme => "Unknown binary operator '" ++ lexeme ++ "'."

end Fault

/-- Value of a unary operator on an operand. -/
def applyUnary (operator : Token) (operand : Value) : Except Fault Value :=
  match operator.kind with
  | .symbol .minus =>
    match operand with
    | .number x => .ok (.number (-x))
    | _ => .error .operand
  | .symbol .bang => .ok (.boolean !operand.truthy)
  | _ => .error (.unaryOperator operator.lexeme)

/-- Sum of two numbers, or text of two values side by side. -/
def add : Value → Value → Except Fault Value
  | .number x, .number y => .ok (.number (x + y))
  | .string s, .string t => .ok (.string (s ++ t))
  | .string s, .number y => .ok (.string (s ++ Value.shownNumber y))
  | .number x, .string t => .ok (.string (Value.shownNumber x ++ t))
  | left, right => .error (.addition left.sortName right.sortName)

/-- Operation that a symbol denotes on numbers only, if it denotes one. -/
def numeric? : Symbol → Option (Float → Float → Except Fault Value)
  | .minus => some fun x y => .ok (.number (x - y))
  | .star => some fun x y => .ok (.number (x * y))
  | .slash => some fun x y => if y == 0.0 then .error .divisionByZero else .ok (.number (x / y))
  | .greater => some fun x y => .ok (.boolean (y < x))
  | .greaterEqual => some fun x y => .ok (.boolean (y ≤ x))
  | .less => some fun x y => .ok (.boolean (x < y))
  | .lessEqual => some fun x y => .ok (.boolean (x ≤ y))
  | _ => none

/-- Value of a symbol between two operands, if it is a binary operator. -/
def applySymbol? (symbol : Symbol) (left right : Value) : Option (Except Fault Value) :=
  match symbol with
  | .plus => some (add left right)
  | .equalEqual => some (.ok (.boolean (left.equals right)))
  | .bangEqual => some (.ok (.boolean !left.equals right))
  | _ => (numeric? symbol).map fun operation =>
    match left, right with
    | .number x, .number y => operation x y
    | _, _ => .error .operands

/-- Value of a binary operator between two operands. -/
def applyBinary (operator : Token) (left right : Value) : Except Fault Value :=
  let unknown := .error (.binaryOperator operator.lexeme)
  match operator.kind with
  | .symbol symbol => (applySymbol? symbol left right).getD unknown
  | _ => unknown

/-- Whether the value of the left operand decides a logical operation.  Any
operator that is not `or` counts as `and`. -/
def decides (operator : Token) (left : Value) : Bool :=
  match operator.kind with
  | .keyword .kwOr => left.truthy
  | _ => !left.truthy

end TreeWalker.Evaluation
