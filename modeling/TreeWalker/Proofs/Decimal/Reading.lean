import Mathlib
import TreeWalker.Decimal.Layout

/-!
# Numerals are numbers

Whatever digits a numeral has, the double that is read is a number, if perhaps an
infinite one: a power of ten is neither zero nor infinite, so that dividing by it
gives a number again.
-/

namespace TreeWalker.Decimal

open Float.Model (UnpackedFloat Format)
open Float.Model.UnpackedFloat (unpackExponent unpackMantissa unpackExponent_packComponents
  unpackMantissa_packComponents)

/-- Bits of a number: the largest exponent has no fraction. -/
def IsNumberBits (bits : BitVec Format.binary64.numBits) : Prop :=
  unpackExponent bits = -1#11 → unpackMantissa bits = 0#52

theorem isNumberBits_pack {u : UnpackedFloat} (isNumber : u ≠ .notANumber) :
    IsNumberBits (u.pack .binary64) := by
  have infinite (sign : UnpackedFloat.Sign) :
      IsNumberBits (UnpackedFloat.packedInfinity .binary64 sign) :=
    fun _ => unpackMantissa_packComponents
  cases u with
  | notANumber => exact absurd rfl isNumber
  | infinity sign => exact infinite sign
  | zero sign => exact fun _ => unpackMantissa_packComponents
  | finite sign mantissa exponent positive =>
      unfold UnpackedFloat.pack
      dsimp only
      split
      · exact infinite sign
      · next small =>
          intro largest
          split at largest
          · rw [unpackExponent_packComponents] at largest
            have value := congrArg BitVec.toNat largest
            rw [BitVec.toNat_ofNat] at value
            have all : (-1#11).toNat = 2047 := rfl
            rw [all] at value
            omega
          · rw [unpackExponent_packComponents] at largest
            cases largest

theorem ne_notANumber_of_bits {bits : BitVec Format.binary64.numBits}
    (isNumber : IsNumberBits bits) : UnpackedFloat.unpack .binary64 bits ≠ .notANumber := by
  unfold UnpackedFloat.unpack
  dsimp only
  split
  · next largest =>
      rw [if_pos (isNumber largest)]
      rintro ⟨⟩
  · split
    · split <;> rintro ⟨⟩
    · rintro ⟨⟩

theorem ne_undefined_of_bits {x : Float} (isNumber : IsNumberBits x.toBits.toBitVec) :
    Magnitude.ofFloat x ≠ .undefined := by
  have exponent : (@unpackExponent .binary64 x.toBits.toBitVec).toNat =
      x.toBits.toNat / 2 ^ 52 % 2 ^ 11 := by
    simp [unpackExponent, Nat.shiftRight_eq_div_pow]
  have fraction : (@unpackMantissa .binary64 x.toBits.toBitVec).toNat =
      x.toBits.toNat % 2 ^ 52 := by
    simp [unpackMantissa]
  unfold Magnitude.ofFloat Magnitude.ofFields
  simp only [Nat.pow_eq]
  split
  · next largest =>
      rw [largest] at exponent
      rw [isNumber (BitVec.eq_of_toNat_eq exponent)] at fraction
      have zero : (0#52).toNat = 0 := rfl
      rw [if_pos (fraction.symm.trans zero)]
      nofun
  · split
    · split <;> nofun
    · nofun

theorem roundWithAccuracy_ne (spec : Format) (sign : UnpackedFloat.Sign) (mantissa : Nat)
    (exponent : Int) (accuracy : UnpackedFloat.Accuracy) :
    UnpackedFloat.roundWithAccuracy spec sign mantissa exponent accuracy ≠ .notANumber := by
  unfold UnpackedFloat.roundWithAccuracy
  dsimp only
  split <;> rintro ⟨⟩

theorem ofScientific_ne (m : Nat) (e : Int) :
    UnpackedFloat.ofScientific .binary64 m e ≠ .notANumber := by
  unfold UnpackedFloat.ofScientific
  split
  · rintro ⟨⟩
  split
  · rintro ⟨⟩
  split
  · rintro ⟨⟩
  split
  · exact roundWithAccuracy_ne _ _ _ _ _
  · exact roundWithAccuracy_ne _ _ _ _ _

theorem ofNat_ne (n : Nat) : UnpackedFloat.ofNat .binary64 n ≠ .notANumber := by
  unfold UnpackedFloat.ofNat UnpackedFloat.ofInt UnpackedFloat.normalize
  split
  · exact roundWithAccuracy_ne _ _ _ _ _
  · nofun
  · exact roundWithAccuracy_ne _ _ _ _ _

/-- Whether an unpacked double is neither zero nor infinite. -/
def isProper : UnpackedFloat → Bool
  | .finite _ _ _ _ => true
  | _ => false

theorem isProper_powerOfTen :
    ∀ e : Fin 23, isProper (Float.exactlyRepresentablePowersOfTen[e]).toModel.unpack = true := by
  decide +kernel

/-- The quotient by a proper number is a number. -/
theorem div_ne {u power : UnpackedFloat} (isNumber : u ≠ .notANumber)
    (proper : isProper power = true) :
    UnpackedFloat.div .binary64 u power ≠ .notANumber := by
  cases power with
  | finite sign m e positive =>
      cases u with
      | notANumber => exact absurd rfl isNumber
      | infinity | zero => nofun
      | finite => exact roundWithAccuracy_ne _ _ _ _ _
  | _ => cases proper

/-- What is read from digits is a number. -/
theorem isNumberBits_ofScientific (m e : Nat) :
    IsNumberBits (Float.ofScientific m true e).toBits.toBitVec := by
  unfold Float.ofScientific
  split
  · next small =>
      have whole := ne_notANumber_of_bits (isNumberBits_pack (ofNat_ne m.toUInt64.toNat))
      have proper := isProper_powerOfTen ⟨e, Nat.lt_succ_of_le small.2⟩
      exact isNumberBits_pack (div_ne whole proper)
  · exact isNumberBits_pack (ofScientific_ne m _)

/-- A numeral is read as a number. -/
theorem readNumeral_ne_undefined (whole fraction : List Char) :
    Magnitude.ofFloat (readNumeral whole fraction) ≠ .undefined :=
  ne_undefined_of_bits (isNumberBits_ofScientific _ _)

end TreeWalker.Decimal
