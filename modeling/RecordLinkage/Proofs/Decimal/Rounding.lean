import Mathlib
import RecordLinkage.Power

/-! How large a rounded binary64 number is. Rounding keeps the place of the first digit or moves it up by one,
so an operation overflows only if its exact result nearly does. -/

namespace RecordLinkage

open Float.Model (Format UnpackedFloat totalExponent)
open Float.Model.UnpackedFloat

theorem log2_div_two_pow (n k : Nat) : (n / 2 ^ k).log2 = n.log2 - k := by
  simpa only [Nat.log2_eq_log_two] using Nat.log_div_base_pow 2 n k

theorem log2_le_of_le {m n : Nat} (le : m ≤ n) : m.log2 ≤ n.log2 := by
  simpa only [Nat.log2_eq_log_two] using Nat.log_mono_right le

theorem log2_succ_le (n : Nat) : (n + 1).log2 ≤ n.log2 + 1 := by
  refine Nat.le_of_lt_succ ((Nat.log2_lt (Nat.succ_ne_zero n)).mpr ?_)
  have below := Nat.lt_log2_self (n := n)
  have double := Nat.pow_succ (n := 2) (m := n.log2 + 1)
  omega

theorem log2_shiftLeft_le (n k : Nat) : (n <<< k).log2 ≤ n.log2 + k := by
  have undone := log2_div_two_pow (n <<< k) k
  rw [Nat.shiftLeft_eq, Nat.mul_div_cancel n (Nat.two_pow_pos k)] at undone
  rw [Nat.shiftLeft_eq]
  omega

theorem log2_div_le (m n : Nat) : (m / n).log2 ≤ m.log2 - n.log2 := by
  by_cases none : m / n = 0
  · simp [none]
  · have divisor : n ≠ 0 := by
      rintro rfl
      simp at none
    have product : 2 ^ ((m / n).log2 + n.log2) ≤ m := by
      rw [Nat.pow_add]
      exact (Nat.mul_le_mul (Nat.log2_self_le none) (Nat.log2_self_le divisor)).trans (Nat.div_mul_le_self m n)
    have dividend : m ≠ 0 := by
      rintro rfl
      simp at none
    have := (Nat.le_log2 dividend).mpr product
    omega

namespace Binary64

variable (mantissa : Nat) (exponent : Int) (accuracy : Accuracy)

theorem mantissa_shiftRight (extended : ExtendedMantissa) (places : Nat) :
    (extended >>> places).mantissa = extended.mantissa / 2 ^ places := by
  induction places with
  | zero => exact (Nat.div_one _).symm
  | succ places ih =>
      change (extended >>> places).mantissa / 2 = _
      rw [ih, Nat.div_div_eq_div_mul, Nat.pow_succ]

theorem roundedMantissa_bounds (extended : ExtendedMantissa) :
    extended.mantissa ≤ extended.roundedMantissa ∧ extended.roundedMantissa ≤ extended.mantissa + 1 := by
  obtain ⟨mantissa, half, more⟩ := extended
  cases half <;> cases more <;>
    simp only [ExtendedMantissa.roundedMantissa, ExtendedMantissa.accuracy, Accuracy.roundToNearestEven] <;>
    omega

/-- The places that a mantissa is shifted by: so many that at most 53 bits are left, and more if the exponent would
be too small. -/
def shiftedPlaces : Nat := (max (mantissa.log2 + exponent - 52) (-1074) - exponent).toNat

theorem exponent_shifted : (shiftToTargetExponent .binary64 mantissa exponent accuracy).2 =
    exponent + shiftedPlaces mantissa exponent := by
  simp only [shiftToTargetExponent, shiftToExponent, shiftedPlaces, totalExponent, Format.targetExponent,
    Format.mantissaBits, Format.minExponent]
  omega

theorem mantissa_shifted : (shiftToTargetExponent .binary64 mantissa exponent accuracy).1.mantissa =
    mantissa / 2 ^ shiftedPlaces mantissa exponent := by
  have places : (Format.targetExponent .binary64 (totalExponent mantissa exponent) - exponent).toNat =
      shiftedPlaces mantissa exponent := by
    simp only [shiftedPlaces, totalExponent, Format.targetExponent, Format.mantissaBits, Format.minExponent]
    omega
  refine (mantissa_shiftRight _ _).trans ?_
  rw [places]
  cases accuracy with
  | exact => rfl
  | inexact order => cases order <;> rfl

def roundedOnce : Nat := (shiftToTargetExponent .binary64 mantissa exponent accuracy).1.roundedMantissa

def exponentOnce : Int := exponent + shiftedPlaces mantissa exponent

def placesAgain : Nat :=
  shiftedPlaces (roundedOnce mantissa exponent accuracy) (exponentOnce mantissa exponent)

theorem roundWithAccuracy_eq (sign : Sign) : roundWithAccuracy .binary64 sign mantissa exponent accuracy =
    let again := placesAgain mantissa exponent accuracy
    let whole := roundedOnce mantissa exponent accuracy / 2 ^ again
    if none : whole = 0 then .zero sign
    else .finite sign whole (exponentOnce mantissa exponent + again) (Nat.pos_of_ne_zero none) := by
  simp only [roundWithAccuracy, mantissa_shifted, exponent_shifted]
  rfl

theorem log2_roundedOnce_bounds : let length := mantissa.log2 - shiftedPlaces mantissa exponent
    length ≤ (roundedOnce mantissa exponent accuracy).log2 ∧
      (roundedOnce mantissa exponent accuracy).log2 ≤ length + 1 := by
  obtain ⟨least, most⟩ :=
    roundedMantissa_bounds (shiftToTargetExponent .binary64 mantissa exponent accuracy).1
  rw [mantissa_shifted] at least most
  rw [← log2_div_two_pow]
  exact ⟨log2_le_of_le least, (log2_le_of_le most).trans (log2_succ_le _)⟩

/-- A mantissa that is long enough keeps 53 bits. -/
theorem roundWithAccuracy_of_long (sign : Sign) (long : 52 ≤ mantissa.log2) (large : -1074 ≤ exponent) :
    ∃ (mantissa' : Nat) (exponent' : Int) (positive : 0 < mantissa'),
      roundWithAccuracy .binary64 sign mantissa exponent accuracy = .finite sign mantissa' exponent' positive ∧
      mantissa'.log2 = 52 ∧ mantissa.log2 + exponent - 52 ≤ exponent' := by
  obtain ⟨least, most⟩ := log2_roundedOnce_bounds mantissa exponent accuracy
  have whole := log2_div_two_pow (roundedOnce mantissa exponent accuracy) (placesAgain mantissa exponent accuracy)
  have length : (roundedOnce mantissa exponent accuracy).log2 - placesAgain mantissa exponent accuracy = 52 := by
    unfold placesAgain exponentOnce shiftedPlaces at *
    omega
  rw [length] at whole
  have some : roundedOnce mantissa exponent accuracy / 2 ^ placesAgain mantissa exponent accuracy ≠ 0 := by
    intro none
    rw [none] at whole
    cases whole
  rw [roundWithAccuracy_eq]
  refine ⟨_, _, _, dif_neg some, whole, ?_⟩
  unfold exponentOnce shiftedPlaces
  omega

variable {mantissa exponent accuracy}

theorem exponent_le_of_roundWithAccuracy {sign sign' : Sign} {mantissa' : Nat} {exponent' : Int}
    {positive : 0 < mantissa'} (rounded : roundWithAccuracy .binary64 sign mantissa exponent accuracy =
      .finite sign' mantissa' exponent' positive) :
    exponent' ≤ max exponent (max (mantissa.log2 + exponent - 52) (-1074)) + 1 := by
  have length := (log2_roundedOnce_bounds mantissa exponent accuracy).2
  rw [roundWithAccuracy_eq] at rounded
  simp only at rounded
  split at rounded
  · cases rounded
  · obtain ⟨_, _, rfl⟩ := finite.inj rounded
    unfold placesAgain exponentOnce shiftedPlaces at *
    omega

theorem isFinite_roundWithAccuracy (sign : Sign) (mantissa : Nat) (exponent : Int) (accuracy : Accuracy) :
    (roundWithAccuracy .binary64 sign mantissa exponent accuracy).isFinite = true := by
  unfold roundWithAccuracy
  simp only
  split <;> rfl

end Binary64

end RecordLinkage
