import RecordLinkage.Journal.Frame

/-! What the checksum tells apart. Its steps are linear and none of them loses anything, so that a change
within four bytes, which is as much as the register holds, is never lost; and behind any bytes and their
checksum the register is always the same. -/

namespace RecordLinkage

def wordOf : List UInt8 → UInt32
  | [] => 0
  | byte :: bytes => byte.toUInt32 ^^^ wordOf bytes <<< 8

theorem toUInt8_wordOf (byte : UInt8) (bytes : List UInt8) :
    (wordOf (byte :: bytes)).toUInt8 = byte := by
  apply UInt8.toBitVec_inj.mp
  apply BitVec.eq_of_getLsbD_eq
  intro bit bound
  simp [wordOf, bound]

theorem low_xor_high (word : UInt32) : word.toUInt8.toUInt32 ^^^ (word >>> 8) <<< 8 = word := by
  apply UInt32.toBitVec_inj.mp
  apply BitVec.eq_of_getLsbD_eq
  intro bit bound
  simp only [UInt32.toBitVec_xor, UInt8.toBitVec_toUInt32, UInt32.toBitVec_toUInt8,
    UInt32.toBitVec_shiftLeft, UInt32.toBitVec_shiftRight, UInt32.toBitVec_ofNat]
  by_cases low : bit < 8
  · simp [bound, low]
  · simp [bound, low, show 8 + (bit - 8) = bit by omega]

theorem wordOf_wordBytes (word : UInt32) : wordOf (wordBytes word) = word := by
  have second : word >>> 8 >>> 8 = word >>> 16 := by
    rw [← UInt32.toBitVec_inj]
    simp [← BitVec.shiftRight_add]
  have third : word >>> 16 >>> 8 = word >>> 24 := by
    rw [← UInt32.toBitVec_inj]
    simp [← BitVec.shiftRight_add]
  have last : word >>> 24 >>> 8 = 0 := by
    rw [← UInt32.toBitVec_inj]
    simp [← BitVec.shiftRight_add, BitVec.ushiftRight_eq_zero]
  have high := low_xor_high (word >>> 24)
  rw [last] at high
  rw [wordBytes, wordOf, wordOf, wordOf, wordOf, wordOf, high, ← third, low_xor_high, ← second,
    low_xor_high, low_xor_high]

theorem toNat_wordOf_lt : ∀ bytes, (wordOf bytes).toNat < 2 ^ (8 * bytes.length)
  | [] => by simp [wordOf]
  | byte :: bytes => by
      have low := byte.toNat_lt
      have high := toNat_wordOf_lt bytes
      have room : 2 ^ (8 * (byte :: bytes).length) = 2 ^ (8 * bytes.length) * 2 ^ 8 := by
        rw [List.length_cons, Nat.mul_add, Nat.pow_add]
      rw [wordOf, UInt32.toNat_xor, UInt32.toNat_shiftLeft, UInt8.toNat_toUInt32, room]
      rw [← Nat.pow_add] at room ⊢
      refine Nat.xor_lt_two_pow ?_ ?_
      · exact Nat.lt_of_lt_of_le low (Nat.pow_le_pow_right (by decide) (by omega))
      · refine Nat.lt_of_le_of_lt (Nat.mod_le _ _) ?_
        simp only [Nat.shiftLeft_eq, Nat.pow_add]
        exact Nat.mul_lt_mul_of_pos_right high (by decide)

namespace Checksum

theorem and_one (word : UInt32) : word &&& 1 = if word.toBitVec.getLsbD 0 then 1 else 0 := by
  apply UInt32.toBitVec_inj.mp
  simp only [UInt32.toBitVec_and, UInt32.toBitVec_one, BitVec.and_one_eq_setWidth_ofBool_getLsbD]
  cases word.toBitVec.getLsbD 0 <;> rfl

theorem stepBit_eq (register : UInt32) : stepBit register =
    register >>> 1 ^^^ if register.toBitVec.getLsbD 0 then polynomial else 0 := by
  rw [stepBit, and_one]
  cases register.toBitVec.getLsbD 0 <;> simp

theorem stepBit_xor (a b : UInt32) : stepBit (a ^^^ b) = stepBit a ^^^ stepBit b := by
  simp only [stepBit_eq, UInt32.toBitVec_xor, BitVec.getLsbD_xor, UInt32.shiftRight_xor]
  cases a.toBitVec.getLsbD 0 <;> cases b.toBitVec.getLsbD 0 <;>
    simp only [Bool.xor_false, Bool.xor_true, Bool.not_false, Bool.not_true, if_true, if_false,
      Bool.false_eq_true, UInt32.xor_zero]
  · rw [UInt32.xor_assoc]
  · ac_rfl
  · rw [UInt32.xor_assoc, ← UInt32.xor_assoc polynomial, UInt32.xor_comm polynomial, UInt32.xor_assoc,
      UInt32.xor_self, UInt32.xor_zero]

/-- A bit that falls off sets the top bit, which is clear otherwise. -/
theorem eq_zero_of_stepBit {register : UInt32} (zero : stepBit register = 0) : register = 0 := by
  rw [stepBit_eq] at zero
  have low : register.toBitVec.getLsbD 0 = false := by
    cases fell : register.toBitVec.getLsbD 0
    · rfl
    · have top := congrArg (fun word : UInt32 => word.toBitVec.getLsbD 31) zero
      simp [fell, polynomial] at top
  simp only [low, Bool.false_eq_true, if_false, UInt32.xor_zero] at zero
  apply UInt32.toBitVec_inj.mp
  apply BitVec.eq_of_getLsbD_eq
  intro bit bound
  cases bit with
  | zero => simpa using low
  | succ bit =>
      have next := congrArg (fun word : UInt32 => word.toBitVec.getLsbD bit) zero
      simpa [Nat.add_comm] using next

theorem stepBits_xor (count : Nat) (a b : UInt32) :
    stepBits count (a ^^^ b) = stepBits count a ^^^ stepBits count b := by
  induction count generalizing a b with
  | zero => rfl
  | succ count ih => rw [stepBits, stepBit_xor, ih, stepBits, stepBits]

theorem stepBits_add (first second : Nat) (register : UInt32) :
    stepBits (first + second) register = stepBits second (stepBits first register) := by
  induction first generalizing register with
  | zero => rw [Nat.zero_add, stepBits]
  | succ first ih => rw [Nat.succ_add, stepBits, ih, stepBits]

theorem stepBits_injective (count : Nat) : Function.Injective (stepBits count) := by
  have kernel : ∀ register, stepBits count register = 0 → register = 0 := by
    induction count with
    | zero => exact fun _ zero => zero
    | succ count ih => exact fun register zero => eq_zero_of_stepBit (ih _ zero)
  intro a b same
  have apart : stepBits count (a ^^^ b) = 0 := by
    rw [stepBits_xor, same, UInt32.xor_self]
  exact UInt32.xor_eq_zero_iff.mp (kernel _ apart)

/-- Clear bits are only shifted out. -/
theorem toBitVec_stepBits {count : Nat} {register : UInt32}
    (clear : ∀ bit < count, register.toBitVec.getLsbD bit = false) :
    (stepBits count register).toBitVec = register.toBitVec >>> count := by
  induction count generalizing register with
  | zero => rfl
  | succ count ih =>
      have step : (stepBit register).toBitVec = register.toBitVec >>> 1 := by
        rw [stepBit_eq, clear 0 (Nat.succ_pos _)]
        simp
      rw [stepBits, ih, step, ← BitVec.shiftRight_add, Nat.add_comm]
      intro bit below
      rw [step, BitVec.getLsbD_ushiftRight]
      exact clear _ (by omega)

theorem stepBits_shiftLeft {word : UInt32} (low : word.toNat < 2 ^ 24) :
    stepBits 8 (word <<< 8) = word := by
  apply UInt32.toBitVec_inj.mp
  have shifted : (word <<< 8).toBitVec = word.toBitVec <<< 8 := by simp
  rw [toBitVec_stepBits, shifted]
  · apply BitVec.eq_of_toNat_eq
    rw [BitVec.toNat_ushiftRight, BitVec.toNat_shiftLeft, Nat.shiftLeft_eq, Nat.shiftRight_eq_div_pow,
      UInt32.toNat_toBitVec]
    omega
  · intro bit below
    rw [shifted, BitVec.getLsbD_shiftLeft]
    simp [below]

theorem toNat_wordOf_lt_of_length {bytes : List UInt8} (short : bytes.length < 4) :
    (wordOf bytes).toNat < 2 ^ 24 :=
  Nat.lt_of_lt_of_le (toNat_wordOf_lt bytes) (Nat.pow_le_pow_right (by decide) (by omega))

theorem wordOf_inj {old new : List UInt8} (short : old.length ≤ 4) (length : new.length = old.length)
    (same : wordOf new = wordOf old) : new = old := by
  induction new generalizing old with
  | nil => exact (List.eq_nil_of_length_eq_zero length.symm).symm
  | cons byte new ih =>
      cases old with
      | nil => contradiction
      | cons other old =>
          rw [List.length_cons] at short
          rw [List.length_cons, List.length_cons, Nat.succ_inj] at length
          obtain rfl : byte = other := by
            rw [← toUInt8_wordOf byte new, same, toUInt8_wordOf]
          have high := congrArg (stepBits 8) ((UInt32.xor_right_inj _).mp same)
          rw [stepBits_shiftLeft (toNat_wordOf_lt_of_length (by omega)),
            stepBits_shiftLeft (toNat_wordOf_lt_of_length (by omega))] at high
          rw [ih (by omega) length high]

/-- Any four bytes are those of a word. -/
theorem wordBytes_wordOf {bytes : List UInt8} (four : bytes.length = 4) :
    wordBytes (wordOf bytes) = bytes :=
  wordOf_inj (Nat.le_of_eq four) four.symm (wordOf_wordBytes _)

/-- Up to four bytes go through the register as one word. -/
theorem foldl_stepByte {bytes : List UInt8} (fits : bytes.length ≤ 4) (register : UInt32) :
    bytes.foldl stepByte register = stepBits (8 * bytes.length) (register ^^^ wordOf bytes) := by
  induction bytes generalizing register with
  | nil => simp [wordOf, stepBits]
  | cons byte bytes ih =>
      rw [List.length_cons] at fits
      have low := toNat_wordOf_lt_of_length (Nat.lt_of_succ_le fits)
      calc (byte :: bytes).foldl stepByte register
          = stepBits (8 * bytes.length) (stepByte register byte ^^^ wordOf bytes) :=
            ih (by omega) (stepByte register byte)
        _ = stepBits (8 * bytes.length) (stepBits 8 (register ^^^ wordOf (byte :: bytes))) := by
            rw [wordOf, ← UInt32.xor_assoc, stepBits_xor 8, stepBits_shiftLeft low, stepByte]
        _ = stepBits (8 * (byte :: bytes).length) (register ^^^ wordOf (byte :: bytes)) := by
            rw [← stepBits_add, List.length_cons, Nat.mul_succ, Nat.add_comm]

theorem foldl_stepByte_injective (bytes : List UInt8) :
    Function.Injective fun register => bytes.foldl stepByte register := by
  induction bytes with
  | nil => exact fun _ _ same => same
  | cons byte bytes ih =>
      intro a b same
      exact (UInt32.xor_left_inj _).mp (stepBits_injective 8 (ih same))

end Checksum

open Checksum

/-- A change within four consecutive bytes changes the checksum. -/
theorem eq_of_checksum {before old new after : List UInt8} (short : old.length ≤ 4)
    (length : new.length = old.length)
    (same : checksum (before ++ new ++ after) = checksum (before ++ old ++ after)) : new = old := by
  have folds : new.foldl stepByte (before.foldl stepByte 0xffffffff) =
      old.foldl stepByte (before.foldl stepByte 0xffffffff) := by
    have := (UInt32.xor_left_inj _).mp same
    simp only [List.foldl_append] at this
    exact foldl_stepByte_injective after this
  rw [foldl_stepByte short, foldl_stepByte (length ▸ short), length] at folds
  exact wordOf_inj short length ((UInt32.xor_right_inj _).mp (stepBits_injective _ folds))

/-- What the register holds behind any bytes that their checksum follows. -/
theorem foldl_checksum (bytes : List UInt8) :
    (bytes ++ wordBytes (checksum bytes)).foldl stepByte 0xffffffff = stepBits 32 0xffffffff := by
  have fits : (wordBytes (checksum bytes)).length ≤ 4 := Nat.le_refl 4
  rw [List.foldl_append, foldl_stepByte fits, wordOf_wordBytes, checksum, ← UInt32.xor_assoc,
    UInt32.xor_self, UInt32.zero_xor]
  rfl

/-- Behind a checksum, up to four bytes from a frame's first one on do not keep the register. -/
theorem checksum_extended {payload longer more : List UInt8} (short : more.length < 4)
    (extended : longer ++ wordBytes (checksum longer) =
      payload ++ wordBytes (checksum payload) ++ frameVersion :: more) : False := by
  have low : ∀ count < 4, (stepBits 32 0xffffffff ^^^
      stepBits (32 - 8 * (count + 1)) 0xffffffff).toUInt8 ≠ frameVersion := by
    decide +kernel
  have split : stepBits 32 0xffffffff = stepBits (8 * (more.length + 1))
      (stepBits (32 - 8 * (more.length + 1)) 0xffffffff) := by
    rw [← stepBits_add]
    congr 1
    omega
  have kept : (frameVersion :: more).foldl stepByte (stepBits 32 0xffffffff) =
      stepBits 32 0xffffffff := by
    rw [← foldl_checksum payload, ← List.foldl_append, ← extended, foldl_checksum, foldl_checksum]
  have fits : (frameVersion :: more).length ≤ 4 := Nat.succ_le_of_lt short
  rw [foldl_stepByte fits, List.length_cons] at kept
  have before := stepBits_injective _ (kept.trans split)
  refine low _ short ?_
  rw [← before, ← UInt32.xor_assoc, UInt32.xor_self, UInt32.zero_xor, toUInt8_wordOf]

end RecordLinkage
