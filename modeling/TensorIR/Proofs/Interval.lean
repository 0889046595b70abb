import TensorIR.Interval
import TensorIR.Proofs.SymExpr.Eval
import TensorIR.Proofs.Word64

/-!
Operations on intervals. They enclose the results of operations that stop at the ends of the range,
hence the exact results that are in range. A difference is the exception: its right side is negated
first, and the least literal has no negation.
-/

namespace TensorIR

/--
The result of an operation, stopped at the ends of the range; zero stands for no result. A
difference is a sum with the negated right side, which stops first.
-/
def BinOp.saturate : BinOp → Int64 → Int64 → Int64
  | .sub, a, b => a.satAdd b.satNeg
  | op, a, b => ((op.eval? a.toInt b.toInt).map Int64.ofIntClamp).getD 0

namespace Interval

variable {i j : Interval} {a b : Int64}

theorem eq_iff_toInt : i = j ↔ i.lo.toInt = j.lo.toInt ∧ i.hi.toInt = j.hi.toInt := by
  rw [Int64.toInt_inj, Int64.toInt_inj]
  cases i
  cases j
  exact Interval.mk.injEq _ _ _ _ ▸ Iff.rfl

theorem add_comm (i j : Interval) : i.add j = j.add i := by
  simp only [Interval.add, Int64.satAdd, Int.add_comm]

theorem encloses_exactly_iff {n : Int} : (exactly a).Encloses n ↔ n = a.toInt := by
  unfold exactly Encloses
  dsimp only
  omega

theorem encloses_unbounded (a : Int64) : unbounded.Encloses a.toInt := by
  constructor
  · exact a.minValue_le_toInt
  · exact a.toInt_le

theorem encloses_nonneg {n : Int} (h : 0 ≤ n) : nonneg.Encloses (Int64.ofIntClamp n).toInt := by
  constructor
  · rw [Int64.toInt_ofIntClamp_eq]
    change (0 : Int64).toInt ≤ _
    rw [Int64.toInt_zero]
    omega
  · apply Int64.toInt_le

theorem eq_exactly_of_single? {d : Int64} (h : j.single? = some d) : j = exactly d := by
  cases j with
  | mk lo hi =>
    simp only [single?, Option.ite_none_right_eq_some, Option.some.injEq] at h
    unfold exactly
    rw [← h.1, h.2]

theorem Encloses.neg (hi : i.Encloses a.toInt) : i.neg.Encloses a.satNeg.toInt := by
  unfold Encloses at hi
  constructor
  · apply Int64.toInt_ofIntClamp_mono
    omega
  · apply Int64.toInt_ofIntClamp_mono
    omega

theorem Encloses.add (hi : i.Encloses a.toInt) (hj : j.Encloses b.toInt) :
    (i.add j).Encloses (a.satAdd b).toInt := by
  unfold Encloses at hi hj
  constructor
  · apply Int64.toInt_ofIntClamp_mono
    omega
  · apply Int64.toInt_ofIntClamp_mono
    omega

theorem mul_between {l h t : Int} (hl : l ≤ t) (hh : t ≤ h) (s : Int) :
    min (l * s) (h * s) ≤ t * s ∧ t * s ≤ max (l * s) (h * s) := by
  rcases Int.le_total 0 s with hs | hs
  · have hlo := Int.mul_le_mul_of_nonneg_right hl hs
    have hhi := Int.mul_le_mul_of_nonneg_right hh hs
    omega
  · have hlo := Int.mul_le_mul_of_nonpos_right hl hs
    have hhi := Int.mul_le_mul_of_nonpos_right hh hs
    omega

theorem Encloses.mul (hi : i.Encloses a.toInt) (hj : j.Encloses b.toInt) :
    (i.mul j).Encloses (a.satMul b).toInt := by
  -- The product lies between those with the ends of `i`, and these between those with both ends.
  have hfirst := mul_between hi.1 hi.2 b.toInt
  have hlo := mul_between hj.1 hj.2 i.lo.toInt
  have hhi := mul_between hj.1 hj.2 i.hi.toInt
  rw [Int.mul_comm _ i.lo.toInt, Int.mul_comm _ i.lo.toInt, Int.mul_comm _ i.lo.toInt] at hlo
  rw [Int.mul_comm _ i.hi.toInt, Int.mul_comm _ i.hi.toInt, Int.mul_comm _ i.hi.toInt] at hhi
  have hbelow : i.lo.toInt * j.lo.toInt ≤ a.toInt * b.toInt ∨
      i.lo.toInt * j.hi.toInt ≤ a.toInt * b.toInt ∨
      i.hi.toInt * j.lo.toInt ≤ a.toInt * b.toInt ∨
      i.hi.toInt * j.hi.toInt ≤ a.toInt * b.toInt := by
    omega
  have habove : a.toInt * b.toInt ≤ i.lo.toInt * j.lo.toInt ∨
      a.toInt * b.toInt ≤ i.lo.toInt * j.hi.toInt ∨
      a.toInt * b.toInt ≤ i.hi.toInt * j.lo.toInt ∨
      a.toInt * b.toInt ≤ i.hi.toInt * j.hi.toInt := by
    omega
  unfold Encloses Interval.mul
  dsimp only
  rw [Int64.toInt_min, Int64.toInt_min, Int64.toInt_min]
  rw [Int64.toInt_max, Int64.toInt_max, Int64.toInt_max]
  constructor
  · rcases hbelow with h | h | h | h
    all_goals
      have := Int64.toInt_ofIntClamp_mono h
      unfold Int64.satMul
      omega
  · rcases habove with h | h | h | h
    all_goals
      have := Int64.toInt_ofIntClamp_mono h
      unfold Int64.satMul
      omega

theorem saturate_eq_of_eval? {op : BinOp} (hop : op ≠ .sub) {c : Int64}
    (h : op.eval? a.toInt b.toInt = some c.toInt) : op.saturate a b = c := by
  have hsat : op.saturate a b = ((op.eval? a.toInt b.toInt).map Int64.ofIntClamp).getD 0 := by
    cases op with
    | sub => exact absurd rfl hop
    | _ => rfl
  rw [hsat, h, Option.map_some, Option.getD_some, Int64.ofIntClamp_toInt]

theorem saturate_div {d : Int64} (hd : 0 < d) : BinOp.div.saturate a d = a.floorDiv d := by
  have h := Int64.canDivide_of_pos a hd
  apply saturate_eq_of_eval? (by decide)
  rw [Int64.toInt_floorDiv h, BinOp.eval?, if_neg (Int64.toInt_ne_zero (Int64.canDivide_iff.1 h).1)]

theorem saturate_ceilDiv {d : Int64} (hd : 0 < d) : BinOp.ceilDiv.saturate a d = a.ceilDiv d := by
  have h := Int64.canDivide_of_pos a hd
  apply saturate_eq_of_eval? (by decide)
  rw [Int64.toInt_ceilDiv h, BinOp.eval?, if_neg (Int64.toInt_ne_zero (Int64.canDivide_iff.1 h).1)]

theorem saturate_mod {d : Int64} (hd : 0 < d) : BinOp.mod.saturate a d = a.floorMod d := by
  have h := Int64.canDivide_of_pos a hd
  apply saturate_eq_of_eval? (by decide)
  rw [Int64.toInt_floorMod h, BinOp.eval?, if_neg (Int64.toInt_ne_zero (Int64.canDivide_iff.1 h).1)]

theorem fdiv_mono {n m d : Int} (hd : 0 < d) (h : n ≤ m) : n.fdiv d ≤ m.fdiv d := by
  rw [Int.fdiv_eq_ediv_of_nonneg n (Int.le_of_lt hd)]
  rw [Int.fdiv_eq_ediv_of_nonneg m (Int.le_of_lt hd)]
  exact Int.ediv_le_ediv hd h

theorem floorDiv_mono {d : Int64} (hd : 0 < d) (h : a.toInt ≤ b.toInt) :
    (a.floorDiv d).toInt ≤ (b.floorDiv d).toInt := by
  rw [Int64.toInt_floorDiv (Int64.canDivide_of_pos a hd)]
  rw [Int64.toInt_floorDiv (Int64.canDivide_of_pos b hd)]
  exact fdiv_mono (Int64.lt_iff_toInt_lt.1 hd) h

theorem ceilDiv_mono {d : Int64} (hd : 0 < d) (h : a.toInt ≤ b.toInt) :
    (a.ceilDiv d).toInt ≤ (b.ceilDiv d).toInt := by
  rw [Int64.toInt_ceilDiv (Int64.canDivide_of_pos a hd)]
  rw [Int64.toInt_ceilDiv (Int64.canDivide_of_pos b hd)]
  have := fdiv_mono (Int64.lt_iff_toInt_lt.1 hd) (Int.neg_le_neg h)
  omega

theorem Encloses.quotient {op : BinOp} {round : Int64 → Int64 → Int64}
    (hround : ∀ {a d : Int64}, 0 < d → op.saturate a d = round a d)
    (hmono : ∀ {a b d : Int64}, 0 < d → a.toInt ≤ b.toInt → (round a d).toInt ≤ (round b d).toInt)
    (hi : i.Encloses a.toInt) (hj : j.Encloses b.toInt) :
    (i.quotient round j).Encloses (op.saturate a b).toInt := by
  -- Rounding that is monotone in the dividend keeps a dividend between the rounded ends.
  unfold Interval.quotient
  split
  case h_1 d hd =>
    split
    case isTrue hpos =>
      rw [eq_exactly_of_single? hd, encloses_exactly_iff, Int64.toInt_inj] at hj
      rw [hj, hround hpos]
      exact ⟨hmono hpos hi.1, hmono hpos hi.2⟩
    case isFalse => apply encloses_unbounded
  case h_2 => apply encloses_unbounded

theorem toInt_sub_one_of_pos {d : Int64} (hd : 0 < d) : (d - 1).toInt = d.toInt - 1 := by
  rw [Int64.lt_iff_toInt_lt, Int64.toInt_zero] at hd
  have := d.toInt_lt
  rw [Int64.toInt_sub_of_bounds, Int64.toInt_one]
  · rw [Int64.toInt_one]
    omega
  · rw [Int64.toInt_one]
    omega

theorem Encloses.mod (hi : i.Encloses a.toInt) (hj : j.Encloses b.toInt) :
    (i.mod j).Encloses (BinOp.mod.saturate a b).toInt := by
  unfold Interval.mod
  split
  case h_1 d hd =>
    split
    case isTrue hpos =>
      have hpos' := Int64.lt_iff_toInt_lt.1 hpos
      rw [Int64.toInt_zero] at hpos'
      rw [eq_exactly_of_single? hd, encloses_exactly_iff, Int64.toInt_inj] at hj
      rw [hj, saturate_mod hpos, Int64.toInt_floorMod (Int64.canDivide_of_pos a hpos)]
      split
      case isTrue hsmall =>
        -- A dividend between zero and the divisor is its own remainder.
        rw [Int64.le_iff_toInt_le, Int64.toInt_zero, Int64.lt_iff_toInt_lt] at hsmall
        rwa [Int.fmod_eq_of_lt]
        · exact Int.le_trans hsmall.1 hi.1
        · exact Int.lt_of_le_of_lt hi.2 hsmall.2
      case isFalse =>
        have hlo := Int.fmod_nonneg_of_pos a.toInt hpos'
        have hhi := Int.fmod_lt_of_pos a.toInt hpos'
        constructor
        · rw [Int64.toInt_zero]
          exact hlo
        · rw [toInt_sub_one_of_pos hpos]
          omega
    case isFalse => apply encloses_unbounded
  case h_2 => apply encloses_unbounded

theorem encloses_onIntervals (op : BinOp) (hi : i.Encloses a.toInt) (hj : j.Encloses b.toInt) :
    (op.onIntervals i j).Encloses (op.saturate a b).toInt := by
  cases op with
  | add => exact hi.add hj
  | sub => exact hi.add hj.neg
  | mul => exact hi.mul hj
  | div => exact hi.quotient saturate_div floorDiv_mono hj
  | ceilDiv => exact hi.quotient saturate_ceilDiv ceilDiv_mono hj
  | mod => exact hi.mod hj

theorem encloses_sub_iff {c : Int64} (hi : i.Encloses a.toInt) (hj : j.Encloses b.toInt)
    (hc : c.toInt = a.toInt - b.toInt) :
    (BinOp.sub.onIntervals i j).Encloses c.toInt ↔
      (b = Int64.minValue → a = i.hi → 0 ≤ i.hi) := by
  have hc' := c.le_toInt
  have hc'' := c.toInt_lt
  have hilo := i.lo.le_toInt
  have hihi := i.hi.toInt_lt
  have hjlo := j.lo.le_toInt
  have hjhi := j.hi.toInt_lt
  have hmin : Int64.minValue.toInt = -2 ^ 63 := Int64.toInt_minValue
  have hneglo := Int64.toInt_ofIntClamp_eq (-j.hi.toInt)
  have hneghi := Int64.toInt_ofIntClamp_eq (-j.lo.toInt)
  have hlo := Int64.toInt_ofIntClamp_eq (i.lo.toInt + (Int64.ofIntClamp (-j.hi.toInt)).toInt)
  have hhi := Int64.toInt_ofIntClamp_eq (i.hi.toInt + (Int64.ofIntClamp (-j.lo.toInt)).toInt)
  simp only [← Int64.toInt_inj, Int64.le_iff_toInt_le, Int64.toInt_zero]
  unfold Encloses at hi hj
  simp only [BinOp.onIntervals, Interval.add, Interval.neg, Encloses, Int64.satAdd, Int64.satNeg]
  omega

end Interval

end TensorIR
