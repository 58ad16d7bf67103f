import TreeWalker.Decimal.Shortest

/-!
# Decimal text

The text of a number is its shortest decimal, laid out either with a point in
its place or in scientific form.  A `Layout` says which exponents are written
with the point in place and how wide the exponent of the scientific form is.
Reading a numeral goes the other way: all its digits are read as one whole
number, which is then rounded once.
-/

namespace TreeWalker.Decimal

/-- The decisions of a number format. -/
structure Layout where
  /-- The smallest exponent that is written with the point in place. -/
  leastPositional : Int
  /-- The smallest exponent above the positional ones. -/
  positionalBelow : Int
  /-- The least number of digits in a written exponent. -/
  exponentDigits : Nat

namespace Layout

/-- Scientific exponent in text: a sign always, then the digits, filled up with
zeros on the left. -/
def exponentText (layout : Layout) (exponent : Int) : List Char :=
  (if exponent < 0 then '-' else '+') ::
    (Nat.toDigits 10 exponent.natAbs).leftpad layout.exponentDigits '0'

/-- Digits with the point after the place of the given exponent, and at least
one digit on either side of it. -/
def positional (digits : List Char) (exponent : Int) : List Char :=
  if exponent < 0 then
    '0' :: '.' :: (List.replicate (-exponent - 1).toNat '0' ++ digits)
  else
    let whole := exponent.toNat + 1
    let fraction := digits.drop whole
    (digits.take whole ++ List.replicate (whole - digits.length) '0') ++
      '.' :: (if fraction.isEmpty then ['0'] else fraction)

/-- One digit, then the others after a point if there are others, then the
exponent. -/
def scientific (layout : Layout) (digits : List Char) (exponent : Int) : List Char :=
  match digits with
  | [] => []
  | [digit] => digit :: 'e' :: layout.exponentText exponent
  | digit :: others => digit :: '.' :: (others ++ 'e' :: layout.exponentText exponent)

/-- Text of a positive decimal. -/
def numeral (layout : Layout) (d : Numeral) : List Char :=
  let digits := Nat.toDigits 10 d.digits
  let exponent := d.exponent + (digits.length - 1)
  if layout.leastPositional ≤ exponent ∧ exponent < layout.positionalBelow then
    positional digits exponent
  else
    layout.scientific digits exponent

/-- Text of a magnitude. -/
def magnitude (layout : Layout) : Magnitude → List Char
  | .undefined => "nan".toList
  | .infinite => "inf".toList
  | .zero => positional ['0'] 0
  | .finite v => layout.numeral v.shortest

/-- Text of a double.  A negative sign is written before everything that is a
number, zero included. -/
def float (layout : Layout) (x : Float) : List Char :=
  let size := Magnitude.ofFloat x
  if signBit x && size != .undefined then
    '-' :: layout.magnitude size
  else
    layout.magnitude size

end Layout

/-- Whole number written by a list of decimal digits. -/
def digitsValue (digits : List Char) : Nat :=
  digits.foldl (fun value digit => 10 * value + (digit.toNat - '0'.toNat)) 0

/-- The double nearest to the number with the given digits before and after
the point. -/
def readNumeral (whole fraction : List Char) : Float :=
  Float.ofScientific (digitsValue (whole ++ fraction)) true fraction.length

end TreeWalker.Decimal
