import RecordLinkage.Decimal.Shortest

/-! The search for the shortest decimal always finds one, and it is zero only for zero. The grids come down
from one that is too coarse; among them is one with steps so small that the first point above the number
still rounds to it. -/

namespace RecordLinkage

namespace Rounding

variable {r : Rounding}

theorem unit_pos (r : Rounding) (exponent : Int) : 0 < (r.unit exponent).1 ∧ 0 < (r.unit exponent).2 := by
  constructor <;> exact Nat.mul_pos (Nat.pow_pos (by decide)) (Nat.pow_pos (by decide))

structure Wide (r : Rounding) : Prop where
  positive : 0 < r.lowest
  below : r.lowest < 4 * r.mantissa
  above : 4 * r.mantissa + 2 ≤ r.highest

theorem holds_of_lt {unit : Nat × Nat} {point : Nat} (low : r.lowest * unit.1 < point * unit.2)
    (high : point * unit.2 < r.highest * unit.1) : r.holds unit point := by
  unfold holds
  split <;> simp only [Bool.and_eq_true, decide_eq_true_eq] <;> omega

theorem not_holds_zero (wide : r.Wide) {unit : Nat × Nat} (positive : 0 < unit.1) :
    r.holds unit 0 = false := by
  have low := Nat.mul_pos wide.positive positive
  unfold holds
  split <;> simp only [Nat.zero_mul, Bool.and_eq_false_iff, decide_eq_false_iff_not] <;> omega

theorem pos_of_point? (wide : r.Wide) {tie : Tie} {exponent : Int} {digits : Nat}
    (found : r.point? tie exponent = some digits) : 0 < digits := by
  have nonzero : ∀ point, r.holds (r.unit exponent) point → 0 < point := by
    intro point holds
    apply Nat.pos_of_ne_zero
    rintro rfl
    simp [not_holds_zero wide (r.unit_pos exponent).1] at holds
  simp only [point?] at found
  split at found
  · rename_i below above
    split at found
    · exact Option.some.inj found ▸ nonzero _ below
    · split at found
      · exact Option.some.inj found ▸ nonzero _ above
      · cases tie with
        | up => exact Option.some.inj found ▸ nonzero _ above
        | even =>
            simp only at found
            split at found
            · exact Option.some.inj found ▸ nonzero _ below
            · exact Option.some.inj found ▸ nonzero _ above
  · rename_i below _
    exact Option.some.inj found ▸ nonzero _ below
  · rename_i above
    exact Option.some.inj found ▸ nonzero _ above
  · cases found

theorem isSome_point? (wide : r.Wide) (tie : Tie) {exponent : Int}
    (fine : (r.unit exponent).2 < 2 * (r.unit exponent).1) : (r.point? tie exponent).isSome := by
  obtain ⟨_, positive⟩ := r.unit_pos exponent
  have above : r.holds (r.unit exponent)
      (4 * r.mantissa * (r.unit exponent).1 / (r.unit exponent).2 + 1) := by
    have parts := Nat.div_add_mod (4 * r.mantissa * (r.unit exponent).1) (r.unit exponent).2
    have rest := Nat.mod_lt (4 * r.mantissa * (r.unit exponent).1) positive
    have low := Nat.mul_le_mul_right (r.unit exponent).1 (Nat.le_of_lt wide.below)
    have high := Nat.mul_le_mul_right (r.unit exponent).1 wide.above
    rw [Nat.mul_comm (r.unit exponent).2] at parts
    rw [Nat.add_mul] at high
    apply holds_of_lt <;> rw [Nat.add_mul, Nat.one_mul] <;> omega
  simp only [point?, above]
  cases r.holds (r.unit exponent) (4 * r.mantissa * (r.unit exponent).1 / (r.unit exponent).2) with
  | false => rfl
  | true =>
      cases tie <;> dsimp only <;> repeat' split
      all_goals rfl

theorem search_pos (wide : r.Wide) (tie : Tie) {fuel : Nat} {exponent fine : Int}
    (low : exponent - fuel < fine) (high : fine ≤ exponent)
    (found : (r.point? tie fine).isSome) : 0 < (r.search tie fuel exponent).digits := by
  induction fuel generalizing exponent with
  | zero => omega
  | succ fuel ih =>
      simp only [search]
      split
      · rename_i digits point
        exact pos_of_point? wide point
      · rename_i none
        by_cases same : fine = exponent
        · rw [same, none] at found
          contradiction
        · exact ih (by omega) (by omega)

def fineExponent (scale : Int) : Int := (53 + scale) * 30103 / 100000 - 22

theorem fineExponent_fits : (List.range 2046).all (fun place =>
    let scale : Int := place - 1074
    2 ^ (2 - scale).toNat * 10 ^ (fineExponent scale).toNat <
      2 * (2 ^ (scale - 2).toNat * 10 ^ (-fineExponent scale).toNat)) := by
  decide +kernel

end Rounding

namespace Double

variable {d : Double}

theorem wide_rounding (nonzero : d.magnitude ≠ 0) : d.rounding.Wide := by
  have parts : 2 ^ 52 * d.exponentField + d.fractionField = d.magnitude := Nat.div_add_mod _ _
  have positive : 0 < d.rounding.mantissa := by
    simp only [rounding]
    split <;> omega
  constructor
  · simp only [rounding] at positive ⊢
    split <;> omega
  · simp only [rounding] at positive ⊢
    split <;> omega
  · exact Nat.le_refl _

theorem rounding_bounds (finite : d.isFinite) :
    d.rounding.mantissa < 2 ^ 53 ∧ -1074 ≤ d.rounding.scale ∧ d.rounding.scale < 972 := by
  simp only [isFinite, decide_eq_true_eq] at finite
  have fraction : d.fractionField < 2 ^ 52 := Nat.mod_lt _ (by decide)
  have exponent : d.exponentField < 2047 := Nat.div_lt_of_lt_mul (by omega)
  refine ⟨?_, ?_, ?_⟩ <;> simp only [rounding]
  · split <;> omega
  · omega
  · omega

end Double

/-- Only zero has a shortest decimal without a digit but zero, and that one has no exponent. -/
theorem Decimal.shortest_pos {d : Double} (finite : d.isFinite) (tie : Tie) :
    0 < (shortest tie d).digits ∨ shortest tie d = ⟨0, 0⟩ := by
  unfold shortest
  split
  · exact .inr rfl
  · rename_i nonzero
    have wide := Double.wide_rounding nonzero
    obtain ⟨mantissa, low, high⟩ := Double.rounding_bounds finite
    have fine := List.all_eq_true.mp Rounding.fineExponent_fits (d.rounding.scale + 1074).toNat
      (List.mem_range.mpr (by omega))
    have place : ((d.rounding.scale + 1074).toNat : Int) - 1074 = d.rounding.scale := by omega
    simp only [place, decide_eq_true_eq] at fine
    have log : d.rounding.mantissa.log2 < 53 :=
      (Nat.log2_lt (by have := wide.below; omega)).mpr mantissa
    refine .inl (Rounding.search_pos wide tie ?_ ?_ (Rounding.isSome_point? wide tie fine))
    · simp only [Rounding.ceiling, Rounding.fineExponent]
      omega
    · simp only [Rounding.ceiling, Rounding.fineExponent]
      omega

end RecordLinkage
