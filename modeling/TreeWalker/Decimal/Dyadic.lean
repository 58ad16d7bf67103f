/-!
# Binary fractions

A finite double of either sign is a whole number times a power of two.  The
reals that round to it form an interval around it whose ends lie halfway to the
two neighbouring doubles.  This module takes a double apart into its sign and
its size, and gives the interval in quarters of the last binary place, where
all three numbers are whole.
-/

namespace TreeWalker.Decimal

/-- A positive number `mantissa * 2 ^ exponent` together with the shape of its
rounding interval.  The gap to the next smaller double is half as wide as the
gap to the next larger one exactly when `narrowBelow` holds. -/
structure Dyadic where
  mantissa : Nat
  exponent : Int
  narrowBelow : Bool
deriving DecidableEq, Repr

namespace Dyadic

/-- Four times the mantissa: the number itself, counted in quarters of its last
binary place. -/
def quarters (v : Dyadic) : Nat :=
  4 * v.mantissa

/-- Lower end of the rounding interval, in quarters of the last binary place. -/
def lowest (v : Dyadic) : Nat :=
  v.quarters - (if v.narrowBelow then 1 else 2)

/-- Upper end of the rounding interval, in quarters of the last binary place. -/
def highest (v : Dyadic) : Nat :=
  v.quarters + 2

/-- A real halfway between two doubles rounds to the one whose mantissa is
even, so the ends belong to the interval of an even mantissa. -/
def closed (v : Dyadic) : Bool :=
  v.mantissa % 2 == 0

/-- A power of ten with this exponent exceeds the number: the logarithm of two
to base ten lies between `3 / 10` and `31 / 100`, and three covers the error of
the first bound over the range of a double. -/
def exponentBound (v : Dyadic) : Int :=
  (v.mantissa.log2 + 1 + v.exponent) * 3 / 10 + 3

end Dyadic

/-- The size of a double, its sign left out. -/
inductive Magnitude where
  | undefined
  | infinite
  | zero
  | finite (v : Dyadic)
deriving DecidableEq, Repr

/-- Exponent of the last binary place of the smallest doubles. -/
def smallestPlace : Int := -1074

/-- Magnitude with the given biased exponent and fraction field. -/
def Magnitude.ofFields (biased fraction : Nat) : Magnitude :=
  if biased = 2047 then
    if fraction = 0 then .infinite else .undefined
  else if biased = 0 then
    if fraction = 0 then .zero else .finite ⟨fraction, smallestPlace, false⟩
  else
    .finite ⟨Nat.pow 2 52 + fraction, smallestPlace + (biased - 1), fraction == 0 && biased != 1⟩

/-- Magnitude of a double, read off its 64 bits. -/
def Magnitude.ofFloat (x : Float) : Magnitude :=
  let bits := x.toBits.toNat
  .ofFields (bits / Nat.pow 2 52 % Nat.pow 2 11) (bits % Nat.pow 2 52)

/-- Whether the sign bit of a double is set. -/
def signBit (x : Float) : Bool :=
  Nat.pow 2 63 ≤ x.toBits.toNat

end TreeWalker.Decimal
