import TreeWalker.Decimal.Layout

/-!
# Runtime values

The language has four sorts of values: nil, booleans, numbers, which are
doubles, and strings.  A literal of a tree made by hand may also hold a whole
number of unbounded size.  No operation accepts such an integer as a number; it
can only be shown, tested and compared with itself.
-/

namespace TreeWalker

/-- A runtime value. -/
inductive Value where
  | nil
  | boolean (b : Bool)
  | number (x : Float)
  | string (text : String)
  | integer (n : Int)
deriving DecidableEq, Inhabited

namespace Value

/-- Name of a value's sort, as error messages show it. -/
def sortName : Value → String
  | nil => "nil"
  | boolean _ => "boolean"
  | number _ => "number"
  | string _ => "string"
  | integer _ => "int"

/-- Numbers are doubles; an integer is none. -/
def isNumber : Value → Bool
  | number _ => true
  | _ => false

/-- Whether a value is a string. -/
def isString : Value → Bool
  | string _ => true
  | _ => false

/-- Nil and false fail a condition, every other value passes it, zero and the
empty string included. -/
def truthy : Value → Bool
  | nil => false
  | boolean b => b
  | _ => true

/-- Equality of the language.  Values of different sorts are never equal, and
numbers compare as doubles do: a NaN equals nothing, and the two zeros are
equal. -/
def equals : Value → Value → Bool
  | nil, nil => true
  | boolean a, boolean b => a == b
  | number x, number y => x == y
  | string s, string t => s == t
  | integer m, integer n => m == n
  | _, _ => false

/-- Numbers have the point in place from a ten-thousandth up to, but not
including, ten to the sixteenth; other exponents have two digits at least. -/
def numberLayout : Decimal.Layout :=
  ⟨-4, 16, 2⟩

/-- A number in full: a point with a digit after it stands in every positional
number. -/
def fullNumber (x : Float) : String :=
  String.ofList (numberLayout.float x)

/-- Text without a final point and zero. -/
def dropPointZero (text : List Char) : List Char :=
  match text.reverse with
  | '0' :: '.' :: kept => kept.reverse
  | _ => text

/-- Text of a number as it is shown: a whole number has no point. -/
def shownNumber (x : Float) : String :=
  String.ofList (dropPointZero (numberLayout.float x))

/-- Text of a value as it is shown. -/
def display : Value → String
  | nil => "nil"
  | boolean b => if b then "true" else "false"
  | number x => shownNumber x
  | string text => text
  | integer n => toString n

end Value

end TreeWalker
