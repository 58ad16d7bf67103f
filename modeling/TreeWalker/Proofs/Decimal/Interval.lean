import Mathlib.Algebra.Order.Field.Power
import Mathlib.Data.Rat.Cast.Order
import Mathlib.Tactic.FieldSimp
import Mathlib.Tactic.Linarith
import Mathlib.Tactic.LinearCombination
import Mathlib.Tactic.Ring
import Mathlib.Tactic.NormNum
import Mathlib.Tactic.Positivity
import TreeWalker.Decimal.Shortest

/-!
# Rounding intervals

The shortest decimal of a binary fraction lies in its rounding interval.  The
intervals of the positive doubles follow one another without a gap, each ending where
the next one begins, and of two neighbours only one holds their common end.  So no
number lies in two of them.
-/

namespace TreeWalker.Decimal

/-- The number that a decimal stands for. -/
def Numeral.value (d : Numeral) : ℚ :=
  d.digits * 10 ^ d.exponent

namespace Dyadic

variable {v : Dyadic} {q : ℚ}

/-- A quarter of the last binary place. -/
def quarter (v : Dyadic) : ℚ :=
  2 ^ (v.exponent - 2)

theorem quarter_pos (v : Dyadic) : 0 < v.quarter := by
  unfold quarter
  positivity

/-- Lower end of the rounding interval. -/
def low (v : Dyadic) : ℚ :=
  v.lowest * v.quarter

/-- Upper end of the rounding interval. -/
def high (v : Dyadic) : ℚ :=
  v.highest * v.quarter

/-- The number rounds to the binary fraction. -/
structure Contains (v : Dyadic) (q : ℚ) : Prop where
  notBelow : v.low ≤ q
  notAbove : q ≤ v.high
  inside : v.closed = false → v.low < q ∧ q < v.high

/-! ## The shortest decimal -/

/-- A power of a whole number, and the inverse of one, as powers with natural
exponents. -/
theorem pow_toNat {base : ℚ} (nonzero : base ≠ 0) (n : Int) :
    base ^ n.toNat = base ^ n * base ^ (-n).toNat := by
  rw [← zpow_natCast, ← zpow_natCast, ← zpow_add₀ nonzero]
  congr 1
  omega

/-- The common unit measures the grid and the binary fraction alike. -/
theorem gridUnit_mul_quarter (v : Dyadic) (k : Int) :
    (v.gridUnit k : ℚ) * v.quarter = 10 ^ k * v.quarterUnit k := by
  have twos := pow_toNat (two_ne_zero' ℚ) (2 - v.exponent)
  have tens := pow_toNat (show (10 : ℚ) ≠ 0 by norm_num) k
  have units : (2 : ℚ) ^ (2 - v.exponent) * 2 ^ (v.exponent - 2) = 1 := by
    rw [← zpow_add₀ (two_ne_zero' ℚ)]
    simp
  rw [Int.neg_sub] at twos
  unfold gridUnit quarterUnit quarter
  push_cast [Nat.pow_eq]
  rw [twos, tens]
  linear_combination ((10 : ℚ) ^ k * 2 ^ (v.exponent - 2).toNat * 10 ^ (-k).toNat) * units

theorem quarterUnit_pos (v : Dyadic) (k : Int) : (0 : ℚ) < v.quarterUnit k := by
  unfold quarterUnit
  push_cast [Nat.pow_eq]
  positivity

theorem quarters_mul_quarterUnit (v : Dyadic) (k : Int) (n : Nat) :
    n * v.quarter * v.quarterUnit k = (n * v.quarterUnit k : Nat) * v.quarter := by
  push_cast
  ring

theorem value_mul_quarterUnit (v : Dyadic) (k : Int) (digits : Nat) :
    Numeral.value ⟨digits, k⟩ * v.quarterUnit k = (digits * v.gridUnit k : Nat) * v.quarter := by
  push_cast [Numeral.value]
  linear_combination -(digits : ℚ) * v.gridUnit_mul_quarter k

theorem quarters_le_value_iff (v : Dyadic) (k : Int) (n digits : Nat) :
    n * v.quarter ≤ Numeral.value ⟨digits, k⟩ ↔ n * v.quarterUnit k ≤ digits * v.gridUnit k := by
  rw [← mul_le_mul_iff_left₀ (v.quarterUnit_pos k), quarters_mul_quarterUnit,
    value_mul_quarterUnit, mul_le_mul_iff_left₀ v.quarter_pos]
  exact Nat.cast_le

theorem value_le_quarters_iff (v : Dyadic) (k : Int) (n digits : Nat) :
    Numeral.value ⟨digits, k⟩ ≤ n * v.quarter ↔ digits * v.gridUnit k ≤ n * v.quarterUnit k := by
  rw [← mul_le_mul_iff_left₀ (v.quarterUnit_pos k), quarters_mul_quarterUnit,
    value_mul_quarterUnit, mul_le_mul_iff_left₀ v.quarter_pos]
  exact Nat.cast_le

theorem contains_of_readsBack {k : Int} {digits : Nat} (reads : v.readsBack k digits = true) :
    v.Contains (Numeral.value ⟨digits, k⟩) := by
  unfold readsBack at reads
  by_cases closed : v.closed = true
  · simp only [closed, if_true, Bool.and_eq_true, decide_eq_true_eq] at reads
    exact ⟨(v.quarters_le_value_iff k _ _).mpr reads.1, (v.value_le_quarters_iff k _ _).mpr reads.2,
      fun isOpen => by simp [closed] at isOpen⟩
  · simp only [closed, Bool.and_eq_true, decide_eq_true_eq, Bool.false_eq_true, if_false] at reads
    have above : v.low < Numeral.value ⟨digits, k⟩ := by
      rw [← not_le, low, value_le_quarters_iff]
      omega
    have below : Numeral.value ⟨digits, k⟩ < v.high := by
      rw [← not_le, high, quarters_le_value_iff]
      omega
    exact ⟨above.le, below.le, fun _ => ⟨above, below⟩⟩

/-- A binary fraction lies inside its interval. -/
theorem contains_of_eq (positive : 0 < v.mantissa) (same : q = v.quarters * v.quarter) :
    v.Contains q := by
  have quarter := v.quarter_pos
  have below : v.lowest < v.quarters := by
    unfold lowest quarters
    split <;> omega
  have above : v.quarters < v.highest := by
    unfold highest
    omega
  have inside : v.low < q ∧ q < v.high := by
    rw [same]
    exact ⟨mul_lt_mul_of_pos_right (by exact_mod_cast below) quarter,
      mul_lt_mul_of_pos_right (by exact_mod_cast above) quarter⟩
  exact ⟨inside.1.le, inside.2.le, fun _ => inside⟩

theorem value_exact (v : Dyadic) : v.exact.value = v.quarters * v.quarter := by
  have four : (2 : ℚ) ^ v.exponent = 4 * 2 ^ (v.exponent - 2) := by
    rw [zpow_sub₀ (two_ne_zero' ℚ)]
    norm_num
    ring
  unfold exact Numeral.value quarters quarter
  push_cast [Nat.pow_eq]
  rcases le_total 0 v.exponent with notNegative | negative
  · have twos : (2 : ℚ) ^ v.exponent.toNat = 2 ^ v.exponent := by
      rw [← zpow_natCast, Int.toNat_of_nonneg notNegative]
    rw [Int.toNat_of_nonpos (by omega : -v.exponent ≤ 0), min_eq_right notNegative, twos, four]
    ring
  · have fives : (5 : ℚ) ^ (-v.exponent).toNat * 10 ^ v.exponent = 2 ^ v.exponent := by
      rw [← zpow_natCast, Int.toNat_of_nonneg (by omega), show (10 : ℚ) = 2 * 5 by norm_num,
        mul_zpow, zpow_neg]
      field_simp
    rw [Int.toNat_of_nonpos negative, min_eq_left negative, mul_assoc, fives, four]
    ring

/-- A grid point that is found rounds to the binary fraction. -/
theorem readsBack_of_onGrid? {k : Int} {digits : Nat} (found : v.onGrid? k = some digits) :
    v.readsBack k digits = true := by
  unfold onGrid? at found
  simp only at found
  split at found
  · next below above =>
      cases found
      unfold nearest
      simp only
      split
      · exact (Bool.and_eq_true_iff.mp below).2
      · exact above
  · next below _ =>
      cases found
      exact (Bool.and_eq_true_iff.mp below).2
  · next _ above =>
      cases found
      exact above
  · cases found

theorem contains_searchFrom (positive : 0 < v.mantissa) (grids : Nat) (k : Int) :
    v.Contains (v.searchFrom grids k).value := by
  induction grids generalizing k with
  | zero => exact contains_of_eq positive v.value_exact
  | succ grids inductionHypothesis =>
      rw [searchFrom]
      split
      · next found => exact contains_of_readsBack (readsBack_of_onGrid? found)
      · exact inductionHypothesis (k - 1)

/-- The shortest decimal rounds to the binary fraction. -/
theorem contains_shortest (positive : 0 < v.mantissa) : v.Contains v.shortest.value :=
  contains_searchFrom positive 40 v.exponentBound

/-! ## The doubles in order -/

/-- The positive doubles, the smallest one first, if there were no largest one. -/
def nth (n : Nat) : Dyadic :=
  if n < 2 ^ 52 then ⟨n, smallestPlace, false⟩
  else
    ⟨2 ^ 52 + n % 2 ^ 52, smallestPlace + ((n / 2 ^ 52 : Nat) - 1),
      n % 2 ^ 52 == 0 && n / 2 ^ 52 != 1⟩

variable {n m : Nat}

theorem nth_of_lt (small : n < 2 ^ 52) : nth n = ⟨n, smallestPlace, false⟩ :=
  if_pos small

theorem nth_of_le (notSmall : 2 ^ 52 ≤ n) :
    nth n = ⟨2 ^ 52 + n % 2 ^ 52, smallestPlace + ((n / 2 ^ 52 : Nat) - 1),
      n % 2 ^ 52 == 0 && n / 2 ^ 52 != 1⟩ :=
  if_neg (Nat.not_lt.mpr notSmall)

theorem mantissa_nth_pos (positive : 0 < n) : 0 < (nth n).mantissa := by
  unfold nth
  split <;> simp [positive]

theorem closed_nth (n : Nat) : (nth n).closed = (n % 2 == 0) := by
  unfold nth closed
  split
  · rfl
  · have even : (2 ^ 52 + n % 2 ^ 52) % 2 = n % 2 := by omega
    simp only [even]

/-- The next binary fraction with the same last place begins where the one before it
ends. -/
theorem high_eq_low {w : Dyadic} (place : w.exponent = v.exponent)
    (wide : w.narrowBelow = false) (next : w.mantissa = v.mantissa + 1) : v.high = w.low := by
  have same : v.highest = w.lowest := by
    rw [highest, lowest, quarters, quarters, wide, next, if_neg Bool.false_ne_true]
    omega
  rw [high, low, same, quarter, quarter, place]

/-- The interval of a double ends where that of the next one begins. -/
theorem high_nth (positive : 0 < n) : (nth n).high = (nth (n + 1)).low := by
  rcases Nat.lt_trichotomy (n + 1) (2 ^ 52) with small | first | large
  · rw [nth_of_lt small, nth_of_lt (by omega)]
    exact high_eq_low rfl rfl rfl
  · rw [first, nth_of_le (Nat.le_refl _), nth_of_lt (by omega)]
    exact high_eq_low (by simp) (by simp) (by simp [first])
  · rw [nth_of_le (by omega : 2 ^ 52 ≤ n), nth_of_le (by omega : 2 ^ 52 ≤ n + 1)]
    by_cases wraps : (n + 1) % 2 ^ 52 = 0
    · -- The last binary place moves, and with it what a quarter of it is.
      have place : (n + 1) / 2 ^ 52 = n / 2 ^ 52 + 1 := by omega
      have last : n % 2 ^ 52 = 2 ^ 52 - 1 := by omega
      have narrow : ((n + 1) % 2 ^ 52 == 0 && (n + 1) / 2 ^ 52 != 1) = true := by
        simp only [wraps, beq_self_eq_true, Bool.true_and, bne_iff_ne]
        omega
      rw [narrow, wraps, place, last, high, low, highest, lowest, quarters, quarters, if_pos rfl,
        quarter, quarter]
      have wider : (2 : ℚ) ^ (smallestPlace + ((n / 2 ^ 52 + 1 : Nat) - 1) - 2) =
          2 * 2 ^ (smallestPlace + ((n / 2 ^ 52 : Nat) - 1) - 2) := by
        rw [← zpow_one_add₀ (two_ne_zero' ℚ)]
        congr 1
        push_cast
        ring
      rw [wider]
      norm_num
      ring
    · have place : (n + 1) / 2 ^ 52 = n / 2 ^ 52 := by omega
      have next : (n + 1) % 2 ^ 52 = n % 2 ^ 52 + 1 := by omega
      rw [place, next]
      exact high_eq_low rfl (by simp) rfl

theorem low_lt_high (v : Dyadic) : v.low < v.high := by
  refine mul_lt_mul_of_pos_right ?_ v.quarter_pos
  unfold lowest highest
  exact_mod_cast (by omega)

/-- The intervals of larger doubles lie further up. -/
theorem high_nth_le (positive : 0 < n) (less : n < m) : (nth n).high ≤ (nth m).low := by
  induction m, less using Nat.le_induction with
  | base => exact (high_nth positive).le
  | succ m less inductionHypothesis =>
      rw [← high_nth (by omega : 0 < m)]
      exact inductionHypothesis.trans (low_lt_high _).le

/-- No number rounds to two of the doubles. -/
theorem not_contains_of_lt (positive : 0 < n) (less : n < m) (first : (nth n).Contains q) :
    ¬ (nth m).Contains q := by
  intro second
  have between := high_nth_le positive less
  -- The number is where both intervals end, so both doubles are even, and neighbours.
  have high : q = (nth n).high :=
    le_antisymm first.notAbove (between.trans second.notBelow)
  have low : q = (nth m).low := le_antisymm (high.le.trans between) second.notBelow
  have even {k : Nat} (contains : (nth k).Contains q)
      (edge : q = (nth k).high ∨ q = (nth k).low) : k % 2 = 0 := by
    by_contra odd
    have isOpen : (nth k).closed = false := by simp [closed_nth, odd]
    obtain ⟨above, below⟩ := contains.inside isOpen
    rcases edge with top | bottom
    · exact absurd top below.ne
    · exact absurd bottom above.ne'
  have firstEven := even first (Or.inl high)
  have secondEven := even second (Or.inr low)
  have further := high_nth_le (by omega : 0 < n + 1) (by omega : n + 1 < m)
  have apart := low_lt_high (nth (n + 1))
  rw [← high_nth positive] at apart
  linarith

theorem eq_of_contains (positive : 0 < n) (positive' : 0 < m) (first : (nth n).Contains q)
    (second : (nth m).Contains q) : n = m := by
  rcases Nat.lt_trichotomy n m with less | same | greater
  · exact absurd second (not_contains_of_lt positive less first)
  · exact same
  · exact absurd first (not_contains_of_lt positive' greater second)

/-- A number that rounds to a positive double is positive. -/
theorem Contains.pos (contains : v.Contains q) (positive : 0 < v.mantissa) : 0 < q := by
  have bottom : 0 < v.low := by
    refine mul_pos ?_ v.quarter_pos
    unfold lowest quarters
    exact_mod_cast (by split <;> omega)
  exact bottom.trans_le contains.notBelow

end Dyadic

/-! ## Magnitudes -/

namespace Magnitude

/-- A magnitude that is a number. -/
def IsFinite (size : Magnitude) : Prop :=
  size ≠ .infinite ∧ size ≠ .undefined

/-- The value of the shortest decimal of a magnitude. -/
def shortestValue : Magnitude → ℚ
  | finite v => v.shortest.value
  | _ => 0

/-- The magnitude at a place in the order of the doubles from zero upward. -/
theorem ofFields_eq {n : Nat} (bounded : n < 2047 * 2 ^ 52) :
    ofFields (n / 2 ^ 52) (n % 2 ^ 52) = if n = 0 then .zero else .finite (.nth n) := by
  have exponent : n / 2 ^ 52 ≠ 2047 := by omega
  unfold ofFields
  rw [if_neg exponent]
  by_cases small : n < 2 ^ 52
  · have place : n / 2 ^ 52 = 0 := by omega
    have fraction : n % 2 ^ 52 = n := by omega
    rw [if_pos place, fraction, Dyadic.nth_of_lt small]
  · have place : n / 2 ^ 52 ≠ 0 := by omega
    have positive : n ≠ 0 := by omega
    rw [if_neg place, if_neg positive, Dyadic.nth_of_le (by omega)]
    rfl

theorem lt_of_isFinite {n : Nat} (bounded : n < 2 ^ 63)
    (isFinite : (ofFields (n / 2 ^ 52) (n % 2 ^ 52)).IsFinite) : n < 2047 * 2 ^ 52 := by
  by_contra large
  have exponent : n / 2 ^ 52 = 2047 := by omega
  obtain ⟨notInfinite, notUndefined⟩ := isFinite
  unfold ofFields at notInfinite notUndefined
  rw [if_pos exponent] at notInfinite notUndefined
  by_cases fraction : n % 2 ^ 52 = 0
  · exact notInfinite (if_pos fraction)
  · exact notUndefined (if_neg fraction)

/-- Finite doubles of one sign have different shortest decimals. -/
theorem place_eq_of_shortestValue {n m : Nat} (bounded : n < 2047 * 2 ^ 52)
    (bounded' : m < 2047 * 2 ^ 52)
    (same : (ofFields (n / 2 ^ 52) (n % 2 ^ 52)).shortestValue =
      (ofFields (m / 2 ^ 52) (m % 2 ^ 52)).shortestValue) : n = m := by
  rw [ofFields_eq bounded, ofFields_eq bounded'] at same
  have contains {k : Nat} (nonzero : k ≠ 0) :
      (Dyadic.nth k).Contains (Dyadic.nth k).shortest.value :=
    Dyadic.contains_shortest (Dyadic.mantissa_nth_pos (Nat.pos_of_ne_zero nonzero))
  have positive {k : Nat} (nonzero : k ≠ 0) : 0 < (Dyadic.nth k).shortest.value :=
    (contains nonzero).pos (Dyadic.mantissa_nth_pos (Nat.pos_of_ne_zero nonzero))
  by_cases zero : n = 0 <;> by_cases zero' : m = 0
  · rw [zero, zero']
  · rw [if_pos zero, if_neg zero'] at same
    exact absurd same (positive zero').ne
  · rw [if_neg zero, if_pos zero'] at same
    exact absurd same (positive zero).ne'
  · rw [if_neg zero, if_neg zero'] at same
    have first := contains zero
    rw [show (Dyadic.nth n).shortest.value = (Dyadic.nth m).shortest.value from same] at first
    exact Dyadic.eq_of_contains (Nat.pos_of_ne_zero zero) (Nat.pos_of_ne_zero zero') first
      (contains zero')

end Magnitude

/-- Finite doubles differ in their signs or in their shortest decimals. -/
theorem eq_of_shortestValue {x y : Float} (isFinite : (Magnitude.ofFloat x).IsFinite)
    (isFinite' : (Magnitude.ofFloat y).IsFinite) (signs : signBit x = signBit y)
    (same : (Magnitude.ofFloat x).shortestValue = (Magnitude.ofFloat y).shortestValue) :
    x = y := by
  have fields (z : Float) : Magnitude.ofFloat z =
      .ofFields (z.toBits.toNat % 2 ^ 63 / 2 ^ 52) (z.toBits.toNat % 2 ^ 63 % 2 ^ 52) := by
    unfold Magnitude.ofFloat
    simp only [Nat.pow_eq]
    congr 1 <;> omega
  rw [fields] at isFinite isFinite' same
  rw [fields y] at same
  have places := Magnitude.place_eq_of_shortestValue
    (Magnitude.lt_of_isFinite (Nat.mod_lt _ (by positivity)) isFinite)
    (Magnitude.lt_of_isFinite (Nat.mod_lt _ (by positivity)) isFinite') same
  have sameBits : x.toBits.toNat = y.toBits.toNat := by
    have bounded := x.toBits.toNat_lt
    have bounded' := y.toBits.toNat_lt
    simp only [signBit, Nat.pow_eq, decide_eq_decide] at signs
    omega
  obtain ⟨⟨bits, valid⟩⟩ := x
  obtain ⟨⟨bits', valid'⟩⟩ := y
  cases UInt64.toNat_inj.mp sameBits
  rfl

end TreeWalker.Decimal
