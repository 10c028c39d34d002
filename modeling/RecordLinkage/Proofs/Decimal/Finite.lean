import RecordLinkage.Json.Number
import RecordLinkage.Proofs.Decimal.Rounding

/-! The double that a number is read as is finite. The reader refuses a product that is not, and a quotient by a
power of ten stays so far below its dividend that rounding cannot make it overflow. -/

namespace RecordLinkage

open Float.Model (Format UnpackedFloat totalExponent)
open Float.Model.UnpackedFloat

namespace Binary64

def Fits : UnpackedFloat → Prop
  | .zero _ => True
  | .finite _ _ exponent _ => exponent ≤ 971
  | _ => False

theorem isFinite_unpack_iff (bits : BitVec Format.binary64.numBits) :
    (unpack .binary64 bits).isFinite = true ↔ unpackExponent bits ≠ -1#_ := by
  unfold unpack
  simp only
  split
  · split <;> simp_all [UnpackedFloat.isFinite]
  · split
    · split <;> simp_all [UnpackedFloat.isFinite]
    · simp_all [UnpackedFloat.isFinite]

section Pack

variable {sign : Sign} {mantissa : Nat} {exponent : Int} {positive : 0 < mantissa}

theorem pack_of_large (large : 971 < exponent) :
    pack .binary64 (.finite sign mantissa exponent positive) = packedInfinity .binary64 sign :=
  if_pos (show 2 ^ 11 ≤ (exponent + 1023 + 52).toNat + 1 by omega)

theorem pack_of_normal (room : exponent ≤ 971) (length : mantissa.log2 = 52) :
    pack .binary64 (.finite sign mantissa exponent positive) =
      packComponents .binary64 sign (.ofNat _ (exponent + 1075).toNat) (.ofNat _ mantissa) := by
  have biased : exponent + 1023 + 52 = exponent + 1075 := by omega
  refine (if_neg (show ¬2 ^ 11 ≤ (exponent + 1023 + 52).toNat + 1 by omega)).trans ?_
  refine (if_pos (show mantissa.log2 + 1 = 53 by omega)).trans ?_
  rw [← biased]
  rfl

theorem pack_of_short (room : exponent ≤ 971) (short : mantissa.log2 ≠ 52) :
    pack .binary64 (.finite sign mantissa exponent positive) =
      packComponents .binary64 sign 0 (.ofNat _ mantissa) := by
  refine (if_neg (show ¬2 ^ 11 ≤ (exponent + 1023 + 52).toNat + 1 by omega)).trans ?_
  exact if_neg (show mantissa.log2 + 1 ≠ 53 by omega)

end Pack

theorem isFinite_unpack_pack (number : UnpackedFloat) (fits : Fits number) :
    (unpack .binary64 (pack .binary64 number)).isFinite = true := by
  rw [isFinite_unpack_iff]
  cases number with
  | notANumber | infinity => exact fits.elim
  | zero sign => simp [pack, packedZero]
  | finite sign mantissa exponent positive =>
      have room : exponent ≤ 971 := fits
      by_cases length : mantissa.log2 = 52
      · rw [pack_of_normal room length, unpackExponent_packComponents]
        intro same
        have field := congrArg BitVec.toNat same
        simp at field
        omega
      · rw [pack_of_short room length, unpackExponent_packComponents]
        simp

theorem isInf_unpack_pack {number : UnpackedFloat} (finite : number.isFinite = true) (unfit : ¬Fits number) :
    (unpack .binary64 (pack .binary64 number)).isInf = true := by
  cases number with
  | notANumber | infinity => cases finite
  | zero sign => exact (unfit trivial).elim
  | finite sign mantissa exponent positive =>
      rw [pack_of_large (Int.not_le.mp unfit)]
      cases sign <;> rfl

theorem log2_toNat_append_one (bits : BitVec 52) : (1#1 ++ bits).toNat.log2 = 52 := by
  have below := bits.isLt
  have whole : (1#1 ++ bits).toNat = 2 ^ 52 + bits.toNat := by
    rw [BitVec.toNat_append, ← Nat.shiftLeft_add_eq_or_of_lt below]
    rfl
  rw [whole, Nat.log2_eq_iff (by omega)]
  omega

theorem finite_of_unpack {bits : BitVec Format.binary64.numBits} {sign : Sign} {mantissa : Nat} {exponent : Int}
    {positive : 0 < mantissa} (unpacked : unpack .binary64 bits = .finite sign mantissa exponent positive) :
    mantissa.log2 ≤ 52 ∧ exponent ≤ 971 := by
  have field : (unpackExponent bits).toNat < 2048 := (unpackExponent bits).isLt
  unfold unpack at unpacked
  simp only [Format.exponentBias] at unpacked
  split at unpacked
  · split at unpacked <;> cases unpacked
  · rename_i finite
    have last : (unpackExponent bits).toNat ≠ 2047 := by
      intro same
      exact finite (BitVec.eq_of_toNat_eq same)
    split at unpacked
    · rename_i zero
      have first : (unpackExponent bits).toNat = 0 := congrArg BitVec.toNat zero
      split at unpacked
      · cases unpacked
      · cases unpacked
        have below : (unpackMantissa bits).toNat < 2 ^ 52 := (unpackMantissa bits).isLt
        exact ⟨Nat.le_of_lt_succ ((Nat.log2_lt (by omega)).mpr (by omega)), by omega⟩
    · cases unpacked
      exact ⟨(log2_toNat_append_one _).le, by omega⟩

theorem unpack_of_normal (bits : BitVec Format.binary64.numBits) (small : (unpackExponent bits).toNat ≠ 0)
    (finite : (unpackExponent bits).toNat ≠ 2047) : ∃ sign mantissa positive,
      unpack .binary64 bits = .finite sign mantissa ((unpackExponent bits).toNat - 1075) positive ∧
      mantissa.log2 = 52 := by
  refine ⟨_, _, _, (if_neg fun same => ?_).trans (if_neg fun same => ?_), log2_toNat_append_one _⟩
  · exact finite (congrArg BitVec.toNat same)
  · exact small (congrArg BitVec.toNat same)

theorem fits_roundWithAccuracy (sign : Sign) {mantissa : Nat} {exponent : Int} (accuracy : Accuracy)
    (room : mantissa.log2 + exponent ≤ 1022) (small : exponent ≤ 970) :
    Fits (roundWithAccuracy .binary64 sign mantissa exponent accuracy) := by
  have finite := isFinite_roundWithAccuracy sign mantissa exponent accuracy
  cases rounded : roundWithAccuracy .binary64 sign mantissa exponent accuracy with
  | zero => trivial
  | finite sign' mantissa' exponent' positive =>
      have := exponent_le_of_roundWithAccuracy rounded
      change exponent' ≤ 971
      omega
  | infinity | notANumber => cases rounded ▸ finite

section Operations

variable {a b : Float}

theorem isFinite_mul (left : a.isFinite = true) (right : b.isFinite = true) (room : (a * b).isInf = false) :
    (a * b).isFinite = true := by
  have product : (mul .binary64 a.toModel.unpack b.toModel.unpack).isFinite = true := by
    change a.toModel.unpack.isFinite = true at left
    change b.toModel.unpack.isFinite = true at right
    cases left' : a.toModel.unpack <;> rw [left'] at left <;>
      cases right' : b.toModel.unpack <;> rw [right'] at right <;>
        first
        | contradiction
        | exact isFinite_roundWithAccuracy _ _ _ _
        | rfl
  by_cases fits : Fits (mul .binary64 a.toModel.unpack b.toModel.unpack)
  · exact isFinite_unpack_pack _ fits
  · have infinite : (a * b).isInf = true := isInf_unpack_pack product fits
    rw [room] at infinite
    cases infinite

inductive Large : UnpackedFloat → Prop
  | finite {sign : Sign} {mantissa : Nat} {exponent : Int} {positive : 0 < mantissa} :
      3 ≤ mantissa.log2 + exponent → Large (.finite sign mantissa exponent positive)

instance : DecidablePred Large
  | .finite _ mantissa exponent _ =>
      decidable_of_iff (3 ≤ mantissa.log2 + exponent) ⟨.finite, fun | .finite large => large⟩
  | .zero _ | .infinity _ | .notANumber => .isFalse nofun

/-- A quotient of the mantissas, with the exponent that goes with it. -/
theorem divCore_bounds {dividend divisor : Nat} {exponent₁ exponent₂ : Int}
    (room : dividend.log2 + exponent₁ ≤ 1023) (large : 3 ≤ divisor.log2 + exponent₂) :
    let (quotient, exponent, _) := divCore .binary64 dividend exponent₁ divisor exponent₂
    quotient.log2 + exponent ≤ 1022 ∧ exponent ≤ 970 := by
  have exponents : Format.binary64.targetExponent (totalExponent dividend exponent₁ -
      totalExponent divisor exponent₂) =
        max (dividend.log2 + exponent₁ - (divisor.log2 + exponent₂) - 53) (-1074) := by
    simp only [totalExponent, Format.targetExponent, Format.mantissaBits, Format.minExponent]
    omega
  simp only [divCore, exponents]
  generalize least : min (exponent₁ - exponent₂) (max (dividend.log2 + exponent₁ - (divisor.log2 + exponent₂) - 53)
    (-1074)) = exponent
  have shifted := log2_shiftLeft_le dividend (exponent₁ - exponent₂ - exponent).toNat
  have quotient := log2_div_le (dividend <<< (exponent₁ - exponent₂ - exponent).toNat) divisor
  omega

theorem isFinite_div (left : a.isFinite = true) (large : Large b.toModel.unpack) :
    (a / b).isFinite = true := by
  refine isFinite_unpack_pack (div .binary64 a.toModel.unpack b.toModel.unpack) ?_
  change a.toModel.unpack.isFinite = true at left
  generalize b.toModel.unpack = divisor at large
  obtain ⟨large⟩ := large
  cases unpacked : a.toModel.unpack with
  | zero => trivial
  | infinity | notANumber => cases unpacked ▸ left
  | finite sign dividend exponent positive =>
      obtain ⟨length, small⟩ := finite_of_unpack unpacked
      obtain ⟨room, least⟩ := divCore_bounds (show dividend.log2 + exponent ≤ 1023 by omega) large
      exact fits_roundWithAccuracy _ _ room least

theorem isFinite_neg (finite : a.isFinite = true) : (-a).isFinite = true := by
  refine isFinite_unpack_pack a.toModel.unpack.neg ?_
  change a.toModel.unpack.isFinite = true at finite
  cases unpacked : a.toModel.unpack with
  | infinity | notANumber => cases unpacked ▸ finite
  | zero => trivial
  | finite => exact (finite_of_unpack unpacked).2

theorem isFinite_toFloat (word : UInt64) : word.toFloat.isFinite = true := by
  refine isFinite_unpack_pack (UnpackedFloat.normalize .binary64 (word.toNat : Int) 0 .positive) ?_
  unfold UnpackedFloat.normalize
  split
  · rename_i negative
    exact absurd (compare_lt_iff_lt.mp negative) (by omega)
  · trivial
  · have length : word.toNat.log2 ≤ 63 := by
      have bound := log2_le_of_le (Nat.le_sub_one_of_lt word.toNat_lt)
      exact bound.trans (by decide)
    have exponent : Format.binary64.targetExponent (totalExponent word.toNat 0) =
        max (word.toNat.log2 - 52 : Int) (-1074) := by
      simp only [totalExponent, Format.targetExponent, Format.mantissaBits, Format.minExponent]
      omega
    have shifted := log2_shiftLeft_le word.toNat (0 - max (word.toNat.log2 - 52 : Int) (-1074)).toNat
    simp only [UnpackedFloat.round, decreaseExponent, Int.toNat_natCast, exponent]
    exact fits_roundWithAccuracy _ _ (by omega) (by omega)

theorem large_unpack_pack {sign : Sign} {mantissa : Nat} {exponent : Int} {positive : 0 < mantissa}
    (length : mantissa.log2 = 52) (least : -49 ≤ exponent) (room : exponent ≤ 971) :
    Large (unpack .binary64 (pack .binary64 (.finite sign mantissa exponent positive))) := by
  have field : (unpackExponent (pack .binary64 (.finite sign mantissa exponent positive))).toNat =
      (exponent + 1075).toNat := by
    rw [pack_of_normal room length, unpackExponent_packComponents]
    exact Nat.mod_eq_of_lt (show _ < 2 ^ 11 by omega)
  obtain ⟨_, _, _, unpacked, whole⟩ := unpack_of_normal
    (pack .binary64 (.finite sign mantissa exponent positive)) (by omega) (by omega)
  rw [unpacked]
  exact .finite (by omega)

theorem large_ofScientific {e : Nat} (positive : 0 < e) (room : e ≤ 307) :
    Large (Float.Model.ofScientific 1 e).unpack := by
  have least : 2 ^ 56 ≤ 1 <<< 53 * 10 ^ e := calc
    2 ^ 56 ≤ 2 ^ 53 * 10 ^ 1 := by decide
    _ ≤ 2 ^ 53 * 10 ^ e := Nat.mul_le_mul_left _ (Nat.pow_le_pow_right (by decide) positive)
  have most : 1 <<< 53 * 10 ^ e < 2 ^ 1073 := by
    refine Nat.lt_of_le_of_lt (Nat.mul_le_mul_left _ (Nat.pow_le_pow_right (by decide) room)) ?_
    decide +kernel
  have some : 1 <<< 53 * 10 ^ e ≠ 0 := by omega
  have long := (Nat.le_log2 some).mpr least
  have short := (Nat.log2_lt some).mpr most
  obtain ⟨mantissa, exponent, filled, rounded, length, large⟩ :=
    roundWithAccuracy_of_long (1 <<< 53 * 10 ^ e) (-53) .exact .positive (by omega) (by omega)
  have small := exponent_le_of_roundWithAccuracy rounded
  have power : ofScientific .binary64 1 e = .finite .positive mantissa exponent filled := by
    refine (dif_neg Nat.one_ne_zero).trans ((if_neg ?_).trans ((if_neg ?_).trans ((if_pos ?_).trans ?_)))
    · simp
      omega
    · simp
      omega
    · omega
    · exact rounded
  change Large (unpack .binary64 (pack .binary64 (ofScientific .binary64 1 e)))
  rw [power]
  exact large_unpack_pack length (by omega) (by omega)

open Json.Number

theorem large_powerOfTen {e : Nat} (positive : 0 < e) (room : e ≤ 308) :
    Large (powerOfTen e).toModel.unpack := by
  have ends : ∀ e ∈ 308 :: List.range' 1 22, Large (powerOfTen e).toModel.unpack := by decide +kernel
  by_cases listed : e ∈ 308 :: List.range' 1 22
  · exact ends e listed
  · rw [List.mem_cons, List.mem_range'_1] at listed
    have slow : powerOfTen e = Float.ofModel (.ofScientific 1 e) := dif_neg (by omega)
    rw [slow]
    exact large_ofScientific positive (by omega)

theorem isFinite_powerOfTen {e : Nat} (room : e ≤ 308) : (powerOfTen e).isFinite = true := by
  rcases Nat.eq_zero_or_pos e with rfl | positive
  · decide +kernel
  · have large := large_powerOfTen positive room
    change (powerOfTen e).toModel.unpack.isFinite = true
    generalize (powerOfTen e).toModel.unpack = power at large
    cases large
    rfl

end Operations

end Binary64

open Binary64

theorem Double.isFinite_ofFloat (value : Float) : (Double.ofFloat value).isFinite = value.isFinite := by
  refine Bool.eq_iff_iff.mpr (Iff.trans ?_ (isFinite_unpack_iff _).symm)
  have field : (@unpackExponent .binary64 value.toModel.toBits.toBitVec).toNat =
      value.toBits.toNat / 2 ^ 52 % 2 ^ 11 := by
    simp [unpackExponent, Nat.shiftRight_eq_div_pow]
    rfl
  have fields := Nat.mod_mul (x := value.toBits.toNat) (a := 2 ^ 52) (b := 2 ^ 11)
  rw [Double.isFinite, decide_eq_true_eq, Ne, ← BitVec.toNat_inj, field]
  change value.toBits.toNat % (2 ^ 52 * 2 ^ 11) < 0x7ff0000000000000 ↔ _ ≠ 2047
  have low := Nat.mod_lt value.toBits.toNat (Nat.two_pow_pos 52)
  have high := Nat.mod_lt (value.toBits.toNat / 2 ^ 52) (Nat.two_pow_pos 11)
  rw [fields]
  generalize value.toBits.toNat % 2 ^ 52 = fraction at *
  generalize value.toBits.toNat / 2 ^ 52 % 2 ^ 11 = exponent at *
  omega

namespace Json.Number

theorem isFinite_scaleDown {value : Float} (finite : value.isFinite = true) {e : Nat} (positive : 0 < e) :
    (scaleDown value e).isFinite = true := by
  induction value, e using scaleDown.induct with
  | case1 value e small =>
      rw [scaleDown, if_pos small]
      exact isFinite_div finite (large_powerOfTen positive small)
  | case2 value e large zero =>
      rwa [scaleDown, if_neg large, if_pos zero]
  | case3 value e large filled ih =>
      rw [scaleDown, if_neg large, if_neg filled]
      exact ih (isFinite_div finite (large_powerOfTen (by decide) (by decide))) (by omega)

theorem isFinite_scale? {value scaled : Float} (finite : value.isFinite = true) {e : Int}
    (scales : scale? value e = some scaled) : scaled.isFinite = true := by
  unfold scale? at scales
  split at scales
  · split at scales
    · simp only [Option.ite_none_left_eq_some, Option.some.injEq] at scales
      obtain ⟨room, rfl⟩ := scales
      exact isFinite_mul finite (isFinite_powerOfTen ‹_›) (Bool.not_eq_true _ ▸ room)
    · simp only [Option.ite_none_right_eq_some, Option.some.injEq] at scales
      exact scales.2 ▸ finite
  · obtain rfl := Option.some.inj scales
    exact isFinite_scaleDown finite (Nat.succ_pos _)

/-- Whatever a number says, the double that it is read as is finite. -/
theorem isFinite_double? (n : Number) {d : Double} (read : n.double? = some d) : d.isFinite = true := by
  obtain ⟨value, scales, rfl⟩ := Option.map_eq_some_iff.mp read
  have finite := isFinite_scale? (isFinite_toFloat _) scales
  rw [Double.isFinite_ofFloat]
  split
  · exact isFinite_neg finite
  · exact finite

end Json.Number

end RecordLinkage
