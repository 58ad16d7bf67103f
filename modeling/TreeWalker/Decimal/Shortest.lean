import TreeWalker.Decimal.Dyadic

/-!
# Shortest decimals

A decimal with digits `d` and exponent `k` stands for `d * 10 ^ k`.  The
decimals of one exponent form a grid, and a coarser grid needs fewer digits for
the same number.  `Dyadic.shortest` goes from coarse grids to fine ones and
stops at the first that has a point inside the rounding interval of the number,
so the decimal found reads back as that number and no shorter one does.  All
comparisons are between whole numbers.
-/

namespace TreeWalker.Decimal

/-- The number `digits * 10 ^ exponent`. -/
structure Numeral where
  digits : Nat
  exponent : Int
deriving DecidableEq, Repr

namespace Dyadic

/-- Factor that turns quarters of the last binary place of `v` into the common
unit of `v` and the grid with exponent `k`. -/
def quarterUnit (v : Dyadic) (k : Int) : Nat :=
  Nat.pow 2 (v.exponent - 2).toNat * Nat.pow 10 (-k).toNat

/-- One step of the grid with exponent `k`, in the common unit of `v` and that
grid. -/
def gridUnit (v : Dyadic) (k : Int) : Nat :=
  Nat.pow 2 (2 - v.exponent).toNat * Nat.pow 10 k.toNat

/-- Whether `digits * 10 ^ k` rounds to `v`. -/
def readsBack (v : Dyadic) (k : Int) (digits : Nat) : Bool :=
  let point := digits * v.gridUnit k
  let low := v.lowest * v.quarterUnit k
  let high := v.highest * v.quarterUnit k
  if v.closed then low ≤ point && point ≤ high else low < point && point < high

/-- The grid point nearest to `v`.  Halfway between two points it is the one
with an even last digit. -/
def nearest (v : Dyadic) (k : Int) : Nat :=
  let value := v.quarters * v.quarterUnit k
  let step := v.gridUnit k
  let below := value / step
  let excess := 2 * (value % step)
  if excess < step ∨ excess = step ∧ below % 2 = 0 then below else below + 1

/-- Of the two grid points next to `v`, the one that rounds to `v`; where both
do, the one nearest to `v`. -/
def onGrid? (v : Dyadic) (k : Int) : Option Nat :=
  let below := v.quarters * v.quarterUnit k / v.gridUnit k
  let above := below + 1
  match 0 < below && v.readsBack k below, v.readsBack k above with
  | true, true => some (v.nearest k)
  | true, false => some below
  | false, true => some above
  | false, false => none

/-- Every binary fraction is a decimal fraction: halves are fives in the next
decimal place. -/
def exact (v : Dyadic) : Numeral :=
  ⟨v.mantissa * Nat.pow 2 v.exponent.toNat * Nat.pow 5 (-v.exponent).toNat, min v.exponent 0⟩

/-- First hit among the grids `k`, `k - 1`, … of the given number; the exact
value where none of them has a point that rounds to `v`. -/
def searchFrom (v : Dyadic) : Nat → Int → Numeral
  | 0, _ => v.exact
  | grids + 1, k =>
    match v.onGrid? k with
    | some digits => ⟨digits, k⟩
    | none => v.searchFrom grids (k - 1)

/-- The decimal of fewest digits that reads back as `v`.  Seventeen digits are
enough for every double, and forty grids below the bound of the exponent hold
all of seventeen digits. -/
def shortest (v : Dyadic) : Numeral :=
  v.searchFrom 40 v.exponentBound

end Dyadic

end TreeWalker.Decimal
