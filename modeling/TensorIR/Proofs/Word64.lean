import Mathlib.Algebra.Ring.Int.Defs
import TensorIR.Word64

/-!
The literal operations against exact integers. Operations that tell when they leave the range give
the exact result wherever there is one, saturating operations clamp the exact result, and the
rounding divisions are exact wherever the machine can divide; no step of theirs overflows there.
-/

namespace Int64

theorem neg?_eq_some_iff {a b : Int64} : a.neg? = some b ↔ b.toInt = -a.toInt :=
  ofInt?_eq_some_iff

theorem add?_eq_some_iff {a b c : Int64} : a.add? b = some c ↔ c.toInt = a.toInt + b.toInt :=
  ofInt?_eq_some_iff

theorem sub?_eq_some_iff {a b c : Int64} : a.sub? b = some c ↔ c.toInt = a.toInt - b.toInt :=
  ofInt?_eq_some_iff

theorem mul?_eq_some_iff {a b c : Int64} : a.mul? b = some c ↔ c.toInt = a.toInt * b.toInt :=
  ofInt?_eq_some_iff

theorem toInt_sub_of_bounds {a b : Int64} (hlo : -2 ^ 63 ≤ a.toInt - b.toInt)
    (hhi : a.toInt - b.toInt < 2 ^ 63) : (a - b).toInt = a.toInt - b.toInt := by
  rw [toInt_sub]
  apply Int.bmod_eq_of_le
  · omega
  · omega

theorem toInt_add_of_bounds {a b : Int64} (hlo : -2 ^ 63 ≤ a.toInt + b.toInt)
    (hhi : a.toInt + b.toInt < 2 ^ 63) : (a + b).toInt = a.toInt + b.toInt := by
  rw [toInt_add]
  apply Int.bmod_eq_of_le
  · omega
  · omega

theorem toInt_min (a b : Int64) : (min a b).toInt = min a.toInt b.toInt := by
  change (if a ≤ b then a else b).toInt = _
  rw [Int.min_def]
  split
  case isTrue h => rw [if_pos (le_iff_toInt_le.1 h)]
  case isFalse h => rw [if_neg (mt le_iff_toInt_le.2 h)]

theorem toInt_max (a b : Int64) : (max a b).toInt = max a.toInt b.toInt := by
  change (if a ≤ b then b else a).toInt = _
  rw [Int.max_def]
  split
  case isTrue h => rw [if_pos (le_iff_toInt_le.1 h)]
  case isFalse h => rw [if_neg (mt le_iff_toInt_le.2 h)]

section Clamp

theorem toInt_ofIntClamp_eq (n : Int) :
    (ofIntClamp n).toInt = max (-2 ^ 63) (min n (2 ^ 63 - 1)) := by
  have hmin : minValue.toInt = -2 ^ 63 := toInt_minValue
  have hmax : maxValue.toInt = 2 ^ 63 - 1 := toInt_maxValue
  unfold ofIntClamp
  split
  case isTrue hlo =>
    split
    case isTrue hhi =>
      rw [toInt_ofIntLE]
      omega
    case isFalse hhi => omega
  case isFalse hlo => omega

theorem toInt_ofIntClamp_mono {n m : Int} (h : n ≤ m) :
    (ofIntClamp n).toInt ≤ (ofIntClamp m).toInt := by
  rw [toInt_ofIntClamp_eq, toInt_ofIntClamp_eq]
  omega

end Clamp

section Division

theorem fdiv_eq_and_fmod_eq {n d : Int} (hd : d ≠ 0) :
    n.fdiv d = (if n.tmod d ≠ 0 ∧ decide (n.tmod d < 0) ≠ decide (d < 0) then n.tdiv d - 1
      else n.tdiv d) ∧
    n.fmod d = (if n.tmod d ≠ 0 ∧ decide (n.tmod d < 0) ≠ decide (d < 0) then n.tmod d + d
      else n.tmod d) := by
  -- The truncated quotient and remainder, moved to the divisor's side of zero.
  have hn := Int.tmod_add_mul_tdiv n d
  rcases Int.lt_or_gt_of_ne hd with hneg | hpos
  · have hlo := Int.lt_tmod_of_pos n (b := -d) (by omega)
    have hhi := Int.tmod_lt_of_pos n (b := -d) (by omega)
    rw [Int.tmod_neg] at hlo hhi
    rw [Int.fdiv_fmod_unique' hneg]
    split
    case isTrue h =>
      simp only [hneg, decide_true, ne_eq, decide_eq_true_eq] at h
      rw [Int.mul_sub]
      omega
    case isFalse h =>
      simp only [hneg, decide_true, ne_eq, decide_eq_true_eq] at h
      omega
  · have hlo := Int.lt_tmod_of_pos n hpos
    have hhi := Int.tmod_lt_of_pos n hpos
    have hpos' : ¬ d < 0 := by omega
    rw [Int.fdiv_fmod_unique hpos]
    split
    case isTrue h =>
      simp only [hpos', decide_false, ne_eq, decide_eq_false_iff_not] at h
      rw [Int.mul_sub]
      omega
    case isFalse h =>
      simp only [hpos', decide_false, ne_eq, decide_eq_false_iff_not] at h
      omega

theorem neg_fdiv_neg_eq {n d : Int} (hd : d ≠ 0) :
    -((-n).fdiv d) = (if n.tmod d ≠ 0 ∧ decide (0 < n.tmod d) = decide (0 < d) then n.tdiv d + 1
      else n.tdiv d) := by
  -- Rounding up is rounding down the negated dividend, so the side of zero is the other one.
  have hsigns : ((-n).tmod d ≠ 0 ∧ decide ((-n).tmod d < 0) ≠ decide (d < 0)) ↔
      (n.tmod d ≠ 0 ∧ decide (0 < n.tmod d) = decide (0 < d)) := by
    rw [Int.neg_tmod, ne_eq, ne_eq, ne_eq, decide_eq_decide, decide_eq_decide]
    omega
  rw [(fdiv_eq_and_fmod_eq hd).1]
  simp only [hsigns, Int.neg_tdiv]
  split
  · omega
  · omega

theorem canDivide_iff {a b : Int64} :
    a.canDivide b = true ↔ b ≠ 0 ∧ ¬ (a = minValue ∧ b = -1) := by
  simp only [canDivide, Bool.and_eq_true, bne_iff_ne, Bool.not_eq_true', Bool.and_eq_false_imp,
    beq_iff_eq, beq_eq_false_iff_ne, ne_eq, not_and]

theorem canDivide_of_pos (a : Int64) {b : Int64} (hb : 0 < b) : a.canDivide b = true := by
  rw [canDivide_iff]
  constructor
  · intro h
    rw [h] at hb
    exact absurd hb (by decide)
  · intro h
    rw [h.2] at hb
    exact absurd hb (by decide)

theorem toInt_ne_zero {b : Int64} (hb : b ≠ 0) : b.toInt ≠ 0 := by
  intro h
  exact hb (toInt_inj.1 h)

theorem toInt_div_of_canDivide {a b : Int64} (h : a.canDivide b = true) :
    (a / b).toInt = a.toInt.tdiv b.toInt := by
  rw [canDivide_iff] at h
  by_cases ha : a = minValue
  · apply toInt_div_of_ne_right
    intro hb
    exact h.2 ⟨ha, hb⟩
  · exact toInt_div_of_ne_left a b ha

theorem tdiv_bounds_of_tmod_ne_zero {a b : Int64} (h : a.toInt.tmod b.toInt ≠ 0) :
    -2 ^ 62 ≤ a.toInt.tdiv b.toInt ∧ a.toInt.tdiv b.toInt ≤ 2 ^ 62 := by
  -- A divisor that leaves a remainder is at least two in size, which halves the quotient.
  have ha := a.le_toInt
  have ha' := a.toInt_lt
  have habs : (a.toInt.tdiv b.toInt).natAbs = a.toInt.natAbs / b.toInt.natAbs :=
    Int.natAbs_tdiv a.toInt b.toInt
  by_cases hzero : b.toInt = 0
  · rw [hzero, Int.tdiv_zero]
    omega
  · have hsize : 2 ≤ b.toInt.natAbs := by
      have h1 : b.toInt ≠ 1 := by
        intro h1
        rw [h1, Int.tmod_one] at h
        exact h rfl
      have h2 : b.toInt ≠ -1 := by
        intro h2
        rw [h2, Int.tmod_neg, Int.tmod_one] at h
        exact h rfl
      omega
    have hhalf := Nat.div_le_div_left (a := a.toInt.natAbs) hsize (by omega)
    omega

variable {a b : Int64}

theorem toInt_div_sub_one (h : a.canDivide b = true) (hr : a % b ≠ 0) :
    (a / b - 1).toInt = a.toInt.tdiv b.toInt - 1 := by
  have hr' := toInt_ne_zero hr
  rw [toInt_mod] at hr'
  have hbounds := tdiv_bounds_of_tmod_ne_zero hr'
  have hq := toInt_div_of_canDivide h
  rw [toInt_sub_of_bounds, hq, toInt_one]
  · rw [hq, toInt_one]
    omega
  · rw [hq, toInt_one]
    omega

theorem toInt_div_add_one (h : a.canDivide b = true) (hr : a % b ≠ 0) :
    (a / b + 1).toInt = a.toInt.tdiv b.toInt + 1 := by
  have hr' := toInt_ne_zero hr
  rw [toInt_mod] at hr'
  have hbounds := tdiv_bounds_of_tmod_ne_zero hr'
  have hq := toInt_div_of_canDivide h
  rw [toInt_add_of_bounds, hq, toInt_one]
  · rw [hq, toInt_one]
    omega
  · rw [hq, toInt_one]
    omega

theorem toInt_mod_add (hsign : decide (a % b < 0) ≠ decide (b < 0)) :
    (a % b + b).toInt = a.toInt.tmod b.toInt + b.toInt := by
  -- A remainder and a divisor on two sides of zero have their sum between them.
  have hr := (a % b).le_toInt
  have hr' := (a % b).toInt_lt
  have hb := b.le_toInt
  have hb' := b.toInt_lt
  rw [ne_eq, decide_eq_decide, lt_iff_toInt_lt, lt_iff_toInt_lt, toInt_zero] at hsign
  rw [toInt_add_of_bounds, toInt_mod]
  · omega
  · omega

theorem toInt_floorDiv (h : a.canDivide b = true) :
    (a.floorDiv b).toInt = a.toInt.fdiv b.toInt := by
  have hb := toInt_ne_zero (canDivide_iff.1 h).1
  rw [(fdiv_eq_and_fmod_eq hb).1, ← toInt_mod]
  unfold floorDiv
  simp only [ne_eq, ← toInt_inj (x := a % b), lt_iff_toInt_lt, toInt_zero]
  split
  case isTrue hr =>
    apply toInt_div_sub_one h
    exact fun h0 => hr.1 (toInt_inj.2 h0)
  case isFalse hr => exact toInt_div_of_canDivide h

theorem toInt_floorMod (h : a.canDivide b = true) :
    (a.floorMod b).toInt = a.toInt.fmod b.toInt := by
  have hb := toInt_ne_zero (canDivide_iff.1 h).1
  rw [(fdiv_eq_and_fmod_eq hb).2, ← toInt_mod]
  unfold floorMod
  simp only [ne_eq, ← toInt_inj (x := a % b), lt_iff_toInt_lt, toInt_zero]
  split
  case isTrue hr =>
    rw [toInt_mod_add, toInt_mod]
    simpa only [lt_iff_toInt_lt, toInt_zero] using hr.2
  case isFalse hr => rfl

theorem toInt_ceilDiv (h : a.canDivide b = true) :
    (a.ceilDiv b).toInt = -((-a.toInt).fdiv b.toInt) := by
  have hb := toInt_ne_zero (canDivide_iff.1 h).1
  rw [neg_fdiv_neg_eq hb, ← toInt_mod]
  unfold ceilDiv
  simp only [ne_eq, ← toInt_inj (x := a % b), lt_iff_toInt_lt, toInt_zero]
  split
  case isTrue hr =>
    apply toInt_div_add_one h
    exact fun h0 => hr.1 (toInt_inj.2 h0)
  case isFalse hr => exact toInt_div_of_canDivide h

/-- The division of the machine, which traps on a zero divisor and on a quotient out of range. -/
def quot? (a b : Int64) : Option Int64 :=
  if a.canDivide b then some (a / b) else none

def rem? (a b : Int64) : Option Int64 :=
  if a.canDivide b then some (a % b) else none

/-- `floorDiv` with steps that fail where they leave the range. -/
def floorDivSteps? (a b : Int64) : Option Int64 := do
  let q ← a.quot? b
  let r ← a.rem? b
  if r ≠ 0 ∧ decide (r < 0) ≠ decide (b < 0) then q.sub? 1 else some q

def ceilDivSteps? (a b : Int64) : Option Int64 := do
  let q ← a.quot? b
  let r ← a.rem? b
  if r ≠ 0 ∧ decide (0 < r) = decide (0 < b) then q.add? 1 else some q

def floorModSteps? (a b : Int64) : Option Int64 := do
  let r ← a.rem? b
  if r ≠ 0 ∧ decide (r < 0) ≠ decide (b < 0) then r.add? b else some r

theorem floorDivSteps?_eq_some (h : a.canDivide b = true) :
    a.floorDivSteps? b = some (a.floorDiv b) := by
  simp only [floorDivSteps?, quot?, rem?, if_pos h, Option.bind_eq_bind, Option.bind_some]
  unfold floorDiv
  dsimp only
  split
  case isTrue hr =>
    rw [sub?_eq_some_iff, toInt_div_sub_one h hr.1, toInt_div_of_canDivide h, toInt_one]
  case isFalse hr => rfl

theorem ceilDivSteps?_eq_some (h : a.canDivide b = true) :
    a.ceilDivSteps? b = some (a.ceilDiv b) := by
  simp only [ceilDivSteps?, quot?, rem?, if_pos h, Option.bind_eq_bind, Option.bind_some]
  unfold ceilDiv
  dsimp only
  split
  case isTrue hr =>
    rw [add?_eq_some_iff, toInt_div_add_one h hr.1, toInt_div_of_canDivide h, toInt_one]
  case isFalse hr => rfl

theorem floorModSteps?_eq_some (h : a.canDivide b = true) :
    a.floorModSteps? b = some (a.floorMod b) := by
  simp only [floorModSteps?, rem?, if_pos h, Option.bind_eq_bind, Option.bind_some]
  unfold floorMod
  dsimp only
  split
  case isTrue hr => rw [add?_eq_some_iff, toInt_mod_add hr.2, toInt_mod]
  case isFalse hr => rfl

end Division

end Int64
