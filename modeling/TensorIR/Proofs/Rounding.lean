import Mathlib.Data.Rat.Floor
import TensorIR.Proofs.Word64

/-!
The rounding divisions of literals against the exact quotient, which is a rational number. Main
statement: wherever the machine can divide, the results are the floor, the ceiling and the remainder
that belongs to the floor, and every step on the way to them fits.
-/

namespace Int64

theorem fdiv_eq_floor (n d : Int) : n.fdiv d = ⌊(n : ℚ) / d⌋ := by
  obtain ⟨m, rfl | rfl⟩ := d.eq_nat_or_neg
  · rw [Int.fdiv_eq_ediv_of_nonneg n (Int.natCast_nonneg m), Int.cast_natCast,
      Rat.floor_intCast_div_natCast]
  · -- Both signs change, which neither quotient sees, so that the divisor is a natural number.
    rw [← Int.neg_fdiv_neg, Int.neg_neg, Int.fdiv_eq_ediv_of_nonneg (-n) (Int.natCast_nonneg m),
      Int.cast_neg, div_neg, ← neg_div, ← Int.cast_neg, Int.cast_natCast,
      Rat.floor_intCast_div_natCast]

theorem neg_fdiv_eq_ceil (n d : Int) : -((-n).fdiv d) = ⌈(n : ℚ) / d⌉ := by
  rw [fdiv_eq_floor, Int.cast_neg, neg_div, Int.floor_neg, Int.neg_neg]

variable {a b : Int64}

section Results

variable (h : a.canDivide b = true)
include h

theorem toInt_floorDiv_eq_floor : (a.floorDiv b).toInt = ⌊(a.toInt : ℚ) / b.toInt⌋ := by
  rw [toInt_floorDiv h, fdiv_eq_floor]

theorem toInt_ceilDiv_eq_ceil : (a.ceilDiv b).toInt = ⌈(a.toInt : ℚ) / b.toInt⌉ := by
  rw [toInt_ceilDiv h, neg_fdiv_eq_ceil]

theorem toInt_floorMod_eq_sub :
    (a.floorMod b).toInt = a.toInt - b.toInt * (a.floorDiv b).toInt := by
  rw [toInt_floorMod h, toInt_floorDiv h, Int.fmod_def]

theorem floorMod_bounds_of_pos (hb : 0 < b.toInt) :
    0 ≤ (a.floorMod b).toInt ∧ (a.floorMod b).toInt < b.toInt := by
  rw [toInt_floorMod h]
  constructor
  · exact Int.fmod_nonneg_of_pos a.toInt hb
  · exact Int.fmod_lt_of_pos a.toInt hb

theorem floorMod_bounds_of_neg (hb : b.toInt < 0) :
    b.toInt < (a.floorMod b).toInt ∧ (a.floorMod b).toInt ≤ 0 := by
  rw [toInt_floorMod h]
  exact ((Int.fdiv_fmod_unique' hb).1 ⟨rfl, rfl⟩).2

end Results

/--
The divisions of literals are exact up to the ends of the range: no quotient, no correction by one
and no sum of a remainder and the divisor leaves it.
-/
theorem divisions_exact (hb : b ≠ 0) (hmin : ¬ (a = minValue ∧ b = -1)) :
    (a.floorDiv? b = .ok (a.floorDiv b) ∧ a.floorDivSteps? b = some (a.floorDiv b) ∧
        (a.floorDiv b).toInt = ⌊(a.toInt : ℚ) / b.toInt⌋) ∧
      (a.ceilDiv? b = .ok (a.ceilDiv b) ∧ a.ceilDivSteps? b = some (a.ceilDiv b) ∧
        (a.ceilDiv b).toInt = ⌈(a.toInt : ℚ) / b.toInt⌉) ∧
      (a.floorMod? b = .ok (a.floorMod b) ∧ a.floorModSteps? b = some (a.floorMod b) ∧
        (a.floorMod b).toInt = a.toInt - b.toInt * (a.floorDiv b).toInt) ∧
      (0 < b.toInt → 0 ≤ (a.floorMod b).toInt ∧ (a.floorMod b).toInt < b.toInt) ∧
      (b.toInt < 0 → b.toInt < (a.floorMod b).toInt ∧ (a.floorMod b).toInt ≤ 0) := by
  have h : a.canDivide b = true := canDivide_iff.2 ⟨hb, hmin⟩
  refine ⟨⟨?_, floorDivSteps?_eq_some h, toInt_floorDiv_eq_floor h⟩,
    ⟨?_, ceilDivSteps?_eq_some h, toInt_ceilDiv_eq_ceil h⟩,
    ⟨?_, floorModSteps?_eq_some h, toInt_floorMod_eq_sub h⟩,
    floorMod_bounds_of_pos h, floorMod_bounds_of_neg h⟩
  · rw [floorDiv?, if_neg hb, if_pos h]
  · rw [ceilDiv?, if_neg hb, if_pos h]
  · rw [floorMod?, if_neg hb, if_pos h]

/-- The quotient lies just below minus one, and the remainder one below the divisor. -/
theorem divisions_exact_least :
    ⌊(minValue.toInt : ℚ) / maxValue.toInt⌋ = -2 ∧ ⌈(minValue.toInt : ℚ) / maxValue.toInt⌉ = -1 ∧
      minValue.floorModSteps? maxValue = some (maxValue - 1) := by
  obtain ⟨⟨_, _, hfloor⟩, ⟨_, _, hceil⟩, ⟨_, hsteps, _⟩, _⟩ :=
    divisions_exact (a := minValue) (b := maxValue) (by decide) (by decide)
  exact ⟨hfloor.symm, hceil.symm, hsteps⟩

end Int64
